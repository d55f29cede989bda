import Mathlib
import ShaderVariants.Proofs.Build.Complete

/-!
# Builds of one and of many shaders

Shaders that can each be built by themselves can be built together, if their checksums are
distinct and the common file stays below 4 GiB.  The common file then holds for each of them
what its own file holds.  Two shaders with the same checksum cannot be built together, since
both would use the index entries of the first.

## Main definitions

* `ownFile`, `commonLength` — the file of a shader built by itself, and how long a common
  file gets.

## Main results

* `Writer.Wrote.finds_iff` — what a file finds.
* `build_fails_of_twins`, `build_ok_of_distinct` — shaders with the same checksum, and
  shaders with distinct ones.
* `build_together` — **builds of many shaders.**
-/

namespace ShaderVariants

/-- A file finds the written variants, each under its key. -/
theorem Writer.Wrote.finds_iff {shaders : List ShaderEntry} {variants : List Variant}
    {w : Writer} (hw : w.Wrote shaders variants) (hst : Storable shaders variants)
    {key : VariantKey} {v : Variant} : w.file.Finds key v ↔ v ∈ variants ∧ v.key = key := by
  constructor
  · intro hfinds
    obtain ⟨s, l, hget, rfl⟩ := hfinds 0 _ .opened
    have hcoherent : OpenFile.Coherent w variants { file := w.file, number := 0 } :=
      OpenFile.Coherent.of_reachable hw hst .opened
    by_cases hkey : key ∈ variants.map (·.key)
    · obtain ⟨u, hu, rfl⟩ := List.mem_map.mp hkey
      obtain ⟨l', o', hload, hvariant, -⟩ := hcoherent.load_of_mem hw hst hu
      obtain ⟨-, hl⟩ := Prod.mk.inj (hget.symm.trans (LookupSet.tryGet_of_load hload))
      obtain rfl := Option.some.inj (Except.ok.inj hl)
      rw [hvariant]
      exact ⟨hu, rfl⟩
    · have hload := hcoherent.load_of_not_mem hw hst hkey
      obtain ⟨-, hl⟩ := Prod.mk.inj (hget.symm.trans (LookupSet.tryGet_of_load hload))
      cases Except.ok.inj hl
  · rintro ⟨hv, rfl⟩
    exact hw.finds hst hv

section Together

variable (settings : BuildSettings) (downstream : Downstream)

/-! ### A shader built by itself -/

/-- The variants that a build makes of a source. -/
def ownVariants (s : ShaderSource) : List Variant :=
  builtVariants (s.analyzed.attempts downstream settings.showSource)

/-- The shader of a source in a file. -/
def ownEntry (s : ShaderSource) : ShaderEntry := s.analyzed.entry settings.embedSource

/-- The file of a shader built by itself. -/
def ownFile (s : ShaderSource) : List UInt8 :=
  ((build settings downstream true [s]).file).getD []

/-- How long the file of shaders gets that are built together: header and index of each of
them, and its own part of the body, stand behind 16 common bytes. -/
def commonLength (sources : List ShaderSource) : ℕ :=
  16 + (sources.map fun s => (ownFile settings downstream s).length - 16).sum

/-- The shader can be built by itself. -/
def BuildsAlone (s : ShaderSource) : Prop :=
  ∃ summary, (build settings downstream true [s]).outcome = .ok summary

variable {settings downstream} {sources : List ShaderSource}

/-- A build that succeeds has written its file, and there are no failures. -/
theorem of_build_ok {summary : Summary}
    (h : (build settings downstream true sources).outcome = .ok summary) :
    ∃ file, (build settings downstream true sources).file = some file ∧
      buildFile settings downstream sources = .ok file ∧
      Faultless settings downstream sources := by
  rw [build_eq] at h ⊢
  cases hfile : buildFile settings downstream sources with
  | error e =>
    rw [hfile] at h
    cases h
  | ok file =>
    rw [hfile] at h
    dsimp only at h ⊢
    split_ifs at h ⊢ with hfailure
    refine ⟨file, rfl, rfl, ?_⟩
    exact (hasFailure_buildDiagnostics settings downstream).mp (Bool.eq_false_iff.mpr hfailure)

/-- Without failures, the variants of a build are those of the shaders by themselves. -/
theorem build_parts (settings : BuildSettings) (downstream : Downstream)
    (h : ∀ s ∈ sources, s.analyzed.isSound = true) :
    batchEntries settings (soundShaders sources) = sources.map (ownEntry settings) ∧
      builtVariants (buildAttempts settings downstream sources) =
        sources.flatMap (ownVariants settings downstream) := by
  unfold batchEntries buildAttempts batchAttempts builtVariants ownVariants
  rw [soundShaders_eq h, List.map_map, List.flatMap_map, List.filterMap_flatMap]
  exact ⟨rfl, rfl⟩

/-- A writer of the file of a shader that is built by itself. -/
structure Alone (settings : BuildSettings) (downstream : Downstream) (s : ShaderSource)
    (w : Writer) : Prop where
  faultless : Faultless settings downstream [s]
  run : Writer.run [ownEntry settings s] (ownVariants settings downstream s) = .ok w
  finish : w.finish = .ok (ownFile settings downstream s)
  file : (build settings downstream true [s]).file = some (ownFile settings downstream s)

theorem BuildsAlone.exists_alone {s : ShaderSource} (h : BuildsAlone settings downstream s) :
    ∃ w, Alone settings downstream s w := by
  obtain ⟨summary, hsummary⟩ := h
  obtain ⟨file, hbuilt, hfile, hfaultless⟩ := of_build_ok hsummary
  have hown : ownFile settings downstream s = file := by
    rw [ownFile, hbuilt, Option.getD_some]
  obtain ⟨w, hrun, hfinish⟩ := exists_writer_of_buildFile hfile
  obtain ⟨hentries, hvariants⟩ := build_parts settings downstream fun t ht => (hfaultless t ht).1
  rw [hentries, hvariants, List.flatMap_singleton, List.map_singleton] at hrun
  exact ⟨w, hfaultless, hrun, hown ▸ hfinish, hown ▸ hbuilt⟩

namespace Alone

variable {s : ShaderSource} {w : Writer} (h : Alone settings downstream s w)

include h

theorem buildable : s.analyzed.Buildable :=
  .of_isSound (h.faultless s List.mem_cons_self).1

theorem storable : Storable [ownEntry settings s] (ownVariants settings downstream s) := by
  have hheader := (Writer.placed_run h.run).headerFits_of_finish h.finish
  have hsingle : ∀ t ∈ [s.analyzed], t.Buildable := fun t ht =>
    List.mem_singleton.mp ht ▸ h.buildable
  have hst := storable_batch settings downstream hsingle (List.nodup_singleton _) hheader
  rwa [batchAttempts, List.flatMap_singleton] at hst

theorem wrote : w.Wrote [ownEntry settings s] (ownVariants settings downstream s) :=
  Writer.wrote_run h.storable.hashes h.run

theorem ofBytes : SetFile.ofBytes (ownFile settings downstream s) = .ok w.file := by
  obtain ⟨bytes, hfinish, hopen⟩ :=
    Writer.ofBytes_finish h.wrote h.storable.toHeaderFits h.storable.word_lt_limit
  obtain rfl := Except.ok.inj (h.finish.symm.trans hfinish)
  exact hopen

/-- How long the file of the shader is. -/
theorem length_ownFile : (ownFile settings downstream s).length =
    16 + ((ownEntry settings s).size +
      bodyGrowth [ownEntry settings s] [] (ownVariants settings downstream s)) := by
  rw [Writer.length_finish h.storable.hashes h.storable.word_lt_limit h.run h.finish,
    List.map_singleton, List.sum_singleton, Nat.add_assoc]

theorem length_ownVariants :
    (ownVariants settings downstream s).length = s.analyzed.allVariants.size :=
  length_builtVariants settings downstream h.faultless List.mem_cons_self

/-- All variants have the checksum of the shader. -/
theorem sourceHash_eq {v : Variant} (hv : v ∈ ownVariants settings downstream s) :
    v.key.sourceHash = sourceChecksum s.source := by
  obtain ⟨t, ht, hhash⟩ := h.wrote.known v hv
  have hentry : t.toShaderEntry ∈ w.shaders.map (·.toShaderEntry) := List.mem_map_of_mem ht
  rw [h.wrote.announced, List.mem_singleton] at hentry
  rw [← hhash]
  exact congrArg (·.info.sourceHash) hentry

end Alone

/-- A shader has at least one variant. -/
theorem variantCount_pos (settings : BuildSettings) (s : ShaderSource) :
    0 < (ownEntry settings s).variantCount := VariantSpace.sizeOf_pos _

theorem le_entryCount (settings : BuildSettings) : ∀ sources : List ShaderSource,
    sources.length ≤ ShaderEntry.entryCount (sources.map (ownEntry settings)) := by
  intro sources
  induction sources with
  | nil => exact le_rfl
  | cons s rest ih =>
    have hpos := variantCount_pos settings s
    rw [List.length_cons, List.map_cons, ShaderEntry.entryCount]
    omega

/-! ### Distinct checksums -/

section Distinct

variable (hown : ∀ s ∈ sources, BuildsAlone settings downstream s)

include hown

theorem faultless_of_alone : Faultless settings downstream sources := by
  intro s hs
  obtain ⟨w, hw⟩ := (hown s hs).exists_alone
  exact hw.faultless s List.mem_cons_self

theorem commonLength_eq : commonLength settings downstream sources =
    16 + ((sources.map (ownEntry settings)).map (·.size)).sum + (sources.map fun s =>
      bodyGrowth [ownEntry settings s] [] (ownVariants settings downstream s)).sum := by
  have hlengths : ∀ s ∈ sources, (ownFile settings downstream s).length - 16 =
      (ownEntry settings s).size +
        bodyGrowth [ownEntry settings s] [] (ownVariants settings downstream s) := by
    intro s hs
    obtain ⟨w, hw⟩ := (hown s hs).exists_alone
    rw [hw.length_ownFile, Nat.add_sub_cancel_left]
  rw [commonLength, List.map_congr_left hlengths, List.sum_map_add, Nat.add_assoc, List.map_map]
  rfl

variable (hhashes : (sources.map fun s => sourceChecksum s.source).Nodup)

include hhashes

/-- The common body holds what the bodies of the shaders hold. -/
theorem bodyGrowth_together : bodyGrowth (sources.map (ownEntry settings)) []
    (sources.flatMap (ownVariants settings downstream)) = (sources.map fun s =>
      bodyGrowth [ownEntry settings s] [] (ownVariants settings downstream s)).sum := by
  have hnodup : ((sources.map (ownEntry settings)).map (·.info.sourceHash)).Nodup := by
    rw [List.map_map]
    exact hhashes
  refine bodyGrowth_flatMap sources [] hhashes (fun s hs v hv => ?_) fun _ _ _ hkey => nomatch hkey
  obtain ⟨w, hw⟩ := (hown s hs).exists_alone
  have hhash := hw.sourceHash_eq hv
  refine ⟨hhash, ?_⟩
  have hall : (sources.map (ownEntry settings)).find? (·.info.sourceHash = v.key.sourceHash) =
      some (ownEntry settings s) :=
    (find?_key_iff hnodup).mpr ⟨List.mem_map_of_mem hs, hhash.symm⟩
  have hone : [ownEntry settings s].find? (·.info.sourceHash = v.key.sourceHash) =
      some (ownEntry settings s) :=
    (find?_key_iff hw.storable.hashes).mpr ⟨List.mem_cons_self, hhash.symm⟩
  rw [Variant.programKey, Variant.programKey, maskOf_eq hall, maskOf_eq hone]

/-- **A common file below 4 GiB has room for everything.** -/
theorem buildFits_together (hlength : commonLength settings downstream sources < Word.limit) :
    BuildFits settings downstream sources := by
  obtain ⟨hentries, hvariants⟩ := build_parts settings downstream fun s hs =>
    (faultless_of_alone hown s hs).1
  rw [commonLength_eq hown, sum_size_shaders, ← bodyGrowth_together hown hhashes] at hlength
  -- every shader takes at least one of the index entries
  have hcount : sources.length ≤
      ShaderEntry.entryCount (sources.map (ownEntry settings)) := le_entryCount settings sources
  have hfits : ∀ s ∈ sources, HeaderFits [ownEntry settings s] ∧
      ∀ v ∈ ownVariants settings downstream s,
        (encode v.body).fits = true ∧ v.programs.fits = true := by
    intro s hs
    obtain ⟨w, hw⟩ := (hown s hs).exists_alone
    exact ⟨hw.storable.toHeaderFits, fun v hv => Writer.fits_of_run hw.storable hw.run hv⟩
  unfold BuildFits
  rw [hentries, hvariants]
  refine ⟨⟨?_, ?_, ?_⟩, ?_, ?_, ?_⟩
  · rw [List.length_map]
    omega
  · omega
  · intro e he
    obtain ⟨s, hs, rfl⟩ := List.mem_map.mp he
    exact (hfits s hs).1.fits _ List.mem_cons_self
  · intro v hv
    obtain ⟨s, hs, hv⟩ := List.mem_flatMap.mp hv
    exact ((hfits s hs).2 v hv).1
  · intro v hv
    obtain ⟨s, hs, hv⟩ := List.mem_flatMap.mp hv
    exact ((hfits s hs).2 v hv).2
  · rw [bodyEnd_layOut]
    change 0 + bodyGrowth _ [] _ < _
    omega

/-- **Shaders with distinct checksums are built together** as they are built alone. -/
theorem build_ok_of_distinct (hlength : commonLength settings downstream sources < Word.limit) :
    ∃ summary file f, (build settings downstream true sources).outcome = .ok summary ∧
      (build settings downstream true sources).file = some file ∧
      file.length = commonLength settings downstream sources ∧
      SetFile.ofBytes file = .ok f ∧ ∀ s ∈ sources, ∃ f',
        SetFile.ofBytes (ownFile settings downstream s) = .ok f' ∧
        ∀ key v, f'.Finds key v → f.Finds key v := by
  have hfaultless := faultless_of_alone hown
  have hfits := buildFits_together hown hhashes hlength
  obtain ⟨hentries, hvariants⟩ := build_parts settings downstream fun s hs => (hfaultless s hs).1
  have hst := storable_build settings downstream hhashes hfits.toHeaderFits
  obtain ⟨-, file, hfile, -⟩ := buildFile_ok settings downstream hhashes hfits
  obtain ⟨w, hrun, hfinish⟩ := exists_writer_of_buildFile hfile
  have hwrote := Writer.wrote_run hst.hashes hrun
  obtain ⟨file', hfinish', hopen⟩ := Writer.ofBytes_finish hwrote hst.toHeaderFits hst.word_lt_limit
  obtain rfl := Except.ok.inj (hfinish.symm.trans hfinish')
  have hbuild : build settings downstream true sources =
      { outcome := .ok (buildSummary settings downstream sources)
        diagnostics := buildDiagnostics settings downstream sources
        file := some file } := by
    rw [build_eq, hfile]
    dsimp only
    rw [if_neg (Bool.eq_false_iff.mp
      ((hasFailure_buildDiagnostics settings downstream).mpr hfaultless))]
  refine ⟨_, file, w.file, congrArg BuildResult.outcome hbuild, congrArg BuildResult.file hbuild,
    ?_, hopen, fun s hs => ?_⟩
  · rw [Writer.length_finish hst.hashes hst.word_lt_limit hrun hfinish, hentries, hvariants,
      bodyGrowth_together hown hhashes, commonLength_eq hown]
  · obtain ⟨w', hw'⟩ := (hown s hs).exists_alone
    refine ⟨w'.file, hw'.ofBytes, fun key v hfinds => ?_⟩
    obtain ⟨hv, hkey⟩ := (hw'.wrote.finds_iff hw'.storable).mp hfinds
    refine (hwrote.finds_iff hst).mpr ⟨?_, hkey⟩
    rw [hvariants]
    exact List.mem_flatMap.mpr ⟨s, hs, hv⟩

end Distinct

/-! ### Equal checksums -/

theorem filter_flatMap_of_const {α β : Type} {f : α → List β} {p : β → Bool} {q : α → Bool} :
    ∀ as : List α, (∀ a ∈ as, ∀ b ∈ f a, p b = q a) →
    (as.flatMap f).filter p = (as.filter q).flatMap f := by
  intro as
  induction as with
  | nil => exact fun _ => rfl
  | cons a rest ih =>
    intro h
    have hhead := h a List.mem_cons_self
    rw [List.flatMap_cons, List.filter_append, ih fun b hb => h b (List.mem_cons_of_mem a hb)]
    cases hq : q a with
    | true =>
      rw [List.filter_cons_of_pos hq, List.flatMap_cons,
        List.filter_eq_self.mpr fun b hb => (hhead b hb).trans hq]
    | false =>
      have hnone : (f a).filter p = [] := List.filter_eq_nil_iff.mpr fun b hb hb' =>
        Bool.false_ne_true (hq.symm.trans ((hhead b hb).symm.trans hb'))
      rw [List.filter_cons_of_neg (by rw [hq]; decide), hnone, List.nil_append]

/-- Of two entries with the same key, the first one is found. -/
theorem exists_twins {α β : Type} [DecidableEq β] {f : α → β} {as : List α}
    (h : ¬ (as.map f).Nodup) : ∃ a b rest,
      as.filter (f · = f a) = a :: b :: rest ∧ as.find? (f · = f a) = some a := by
  obtain ⟨k, hcount⟩ : ∃ k, 1 < (as.map f).count k := by
    by_contra hnone
    exact h (List.nodup_iff_count_le_one.mpr fun k => not_lt.mp fun hlt => hnone ⟨k, hlt⟩)
  rw [List.count, List.countP_map, List.countP_eq_length_filter] at hcount
  have hlength : 1 < (as.filter (f · = k)).length := hcount
  cases hfilter : as.filter (f · = k) with
  | nil =>
    rw [hfilter] at hlength
    cases hlength
  | cons a rest =>
    cases rest with
    | nil =>
      rw [hfilter] at hlength
      exact absurd hlength (lt_irrefl _)
    | cons b rest =>
      have hmem : a ∈ as.filter (f · = k) := hfilter ▸ List.mem_cons_self
      obtain rfl : f a = k := of_decide_eq_true (List.mem_filter.mp hmem).2
      refine ⟨a, b, rest, hfilter, ?_⟩
      rw [← List.head?_filter, hfilter, List.head?_cons]

/-- **Shaders with the same checksum cannot be built together.**  Both would use the index
entries of the first of them. -/
theorem build_fails_of_twins (hown : ∀ s ∈ sources, BuildsAlone settings downstream s)
    (htwins : ¬ (sources.map fun s => sourceChecksum s.source).Nodup) :
    ∃ e, (build settings downstream true sources).outcome = .error (.cannotWrite e) ∧
      (build settings downstream true sources).file = none := by
  rw [build_eq]
  cases hfile : buildFile settings downstream sources with
  | error e => exact ⟨e, rfl, rfl⟩
  | ok file =>
    exfalso
    obtain ⟨w, hrun, -⟩ := exists_writer_of_buildFile hfile
    obtain ⟨hentries, hvariants⟩ := build_parts settings downstream fun s hs =>
      (faultless_of_alone hown s hs).1
    rw [hentries, hvariants] at hrun
    obtain ⟨s, t, rest, hfilter, hfirst⟩ := exists_twins htwins
    have hentry : (sources.map (ownEntry settings)).find?
        (·.info.sourceHash = sourceChecksum s.source) = some (ownEntry settings s) := by
      rw [List.find?_map]
      exact congrArg (Option.map (ownEntry settings)) hfirst
    have hle := Writer.length_filter_le_of_run hrun hentry
    have hlength : ∀ x ∈ s :: t :: rest,
        (ownVariants settings downstream x).length = (ownEntry settings x).variantCount := by
      intro x hx
      rw [← hfilter] at hx
      obtain ⟨w', hw'⟩ := (hown x (List.mem_filter.mp hx).1).exists_alone
      exact hw'.length_ownVariants
    have hvariants' : (sources.flatMap (ownVariants settings downstream)).filter
        (·.key.sourceHash = sourceChecksum s.source) =
          (s :: t :: rest).flatMap (ownVariants settings downstream) := by
      rw [← hfilter]
      refine filter_flatMap_of_const sources fun x hx v hv => ?_
      obtain ⟨w', hw'⟩ := (hown x hx).exists_alone
      rw [hw'.sourceHash_eq hv]
    rw [hvariants', List.flatMap_cons, List.flatMap_cons, List.length_append, List.length_append,
      hlength s List.mem_cons_self, hlength t (List.mem_cons_of_mem s List.mem_cons_self)] at hle
    have hpos := variantCount_pos settings t
    omega

/-- **Builds of many shaders.**  For every list of shaders that can be built by themselves:
if two checksums are the same, nothing is built; if all are distinct and the common file stays
below 4 GiB, the shaders are built together, and whatever key the file of one of them finds,
the common file finds the same variant under it. -/
theorem build_together (hown : ∀ s ∈ sources, BuildsAlone settings downstream s) :
    (¬ (sources.map fun s => sourceChecksum s.source).Nodup →
      ∃ e, (build settings downstream true sources).outcome = .error (.cannotWrite e) ∧
        (build settings downstream true sources).file = none) ∧
    ((sources.map fun s => sourceChecksum s.source).Nodup →
      commonLength settings downstream sources < Word.limit →
      ∃ summary file f, (build settings downstream true sources).outcome = .ok summary ∧
        (build settings downstream true sources).file = some file ∧
        file.length = commonLength settings downstream sources ∧
        SetFile.ofBytes file = .ok f ∧ ∀ s ∈ sources, ∃ f',
          SetFile.ofBytes (ownFile settings downstream s) = .ok f' ∧
          ∀ key v, f'.Finds key v → f.Finds key v) :=
  ⟨build_fails_of_twins hown, build_ok_of_distinct hown⟩

end Together

/-- A frame under two names. -/
def twinSources : List ShaderSource :=
  ["left.shader", "right.shader"].map fun name =>
    { name, source := "frame"
      unit := { blocks := [.stage { stage := .vertex }, .stage { stage := .fragment }] } }

theorem buildsAlone_of_isSome {settings : BuildSettings} {downstream : Downstream}
    {s : ShaderSource}
    (h : (build settings downstream true [s]).outcome.toOption.isSome = true) :
    BuildsAlone settings downstream s := by
  unfold BuildsAlone
  cases houtcome : (build settings downstream true [s]).outcome with
  | error e =>
    rw [houtcome] at h
    cases h
  | ok summary => exact ⟨summary, rfl⟩

set_option maxRecDepth 10000 in
theorem buildsAlone_twinSources : ∀ s ∈ twinSources, BuildsAlone {} keepSource s := by
  have hsome : ∀ s ∈ twinSources,
      (build {} keepSource true [s]).outcome.toOption.isSome = true := by decide +kernel
  exact fun s hs => buildsAlone_of_isSome (hsome s hs)

set_option maxRecDepth 10000 in
/-- Pane and frame are built together, and the frame is not built twice. -/
theorem windowSources_together :
    (∃ summary, (build {} keepSource true windowSources).outcome = .ok summary) ∧
    ∃ e, (build {} keepSource true twinSources).outcome = .error (.cannotWrite e) := by
  have hsome : ∀ s ∈ windowSources,
      (build {} keepSource true [s]).outcome.toOption.isSome = true := by decide +kernel
  have halone : ∀ s ∈ windowSources, BuildsAlone {} keepSource s := fun s hs =>
    buildsAlone_of_isSome (hsome s hs)
  have hlength : commonLength {} keepSource windowSources < Word.limit := by
    rw [commonLength_eq halone]
    decide +kernel
  obtain ⟨summary, file, f, hsummary, -⟩ := (build_together halone).2 (by decide) hlength
  obtain ⟨e, he, -⟩ := (build_together buildsAlone_twinSources).1 (by decide)
  exact ⟨⟨summary, hsummary⟩, ⟨e, he⟩⟩

set_option maxRecDepth 10000 in
/-- **Shaders cannot be built together in general**: the frame can be built under both names,
but not under both at once. -/
theorem twinSources_not_together :
    (∀ s ∈ twinSources, BuildsAlone {} keepSource s) ∧
    ¬ ∃ summary, (build {} keepSource true twinSources).outcome = .ok summary := by
  have hnone : (build {} keepSource true twinSources).outcome.toOption = none := by decide +kernel
  refine ⟨buildsAlone_twinSources, ?_⟩
  rintro ⟨summary, hsummary⟩
  rw [hsummary] at hnone
  cases hnone

end ShaderVariants
