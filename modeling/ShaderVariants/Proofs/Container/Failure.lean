import Mathlib
import ShaderVariants.Proofs.Container.Histories
import ShaderVariants.Proofs.Container.RoundTrip

/-!
# What a failing write leaves behind

A write that is refused leaves no trace: the writer has as many index entries left as before,
and whatever is written next, the file is the one it would have been.  A write that is spoiled
always leaves a trace, because its index entry is taken before anything is checked: the shader
has one entry less, and the file lists a variant that was never written.

## Main definitions

* `Writer.entriesLeft`, `Writer.fileAfter` — what can still be written, and the file then.
* `Writer.Alike` — two writers cannot be told apart by what is written next.

## Main results

* `Writer.alike_of_refused`, `Writer.sum_entriesLeft_of_spoiled` — the two kinds of failures.
* `Writer.failed_write` — **a failing write leaves no trace exactly if it was refused.**
* `Writer.wideLamp_spoiled` — a write that leaves a trace.
-/

namespace ShaderVariants

namespace Writer

variable {w w' : Writer} {v : Variant} {e : WriteError}

/-- The numbers of index entries that are left, shader by shader. -/
def entriesLeft (w : Writer) : List ℕ := w.shaders.map fun s => s.variantCount - s.used.length

/-- The file after further variants, each of which has to be written. -/
def fileAfter (w : Writer) (variants : List Variant) : Except WriteError (List UInt8) :=
  match w.writeAll variants with
  | .ok w => w.finish
  | .error e => .error e

/-- The second writer can write what the first can, and both write the same file then. -/
structure Alike (w w' : Writer) : Prop where
  left : w'.entriesLeft = w.entriesLeft
  file : ∀ further, w'.fileAfter further = w.fileAfter further

/-! ### Refused writes -/

/-- Settling the header early changes nothing. -/
theorem fileAfter_of_settle (h : w.settle = .ok w') (further : List Variant) :
    w'.fileAfter further = w.fileAfter further := by
  cases further with
  | nil => exact finish_of_settle h
  | cons v rest => rw [fileAfter, fileAfter, writeAll, writeAll, writeVariant_of_settle h]

theorem alike_of_refused (h : w.writeVariant v = (w', .error e)) (hrefused : ¬ w.Claims v) :
    w.Alike w' := by
  rcases writeVariant_refused h hrefused with rfl | hsettle
  · exact ⟨rfl, fun _ => rfl⟩
  · refine ⟨?_, fileAfter_of_settle hsettle⟩
    rw [settle_ok hsettle]
    rfl

/-! ### Spoiled writes -/

/-- A shader that takes an entry into use has one less left. -/
theorem sum_left_useEntry {hash : UInt32} {entry : IndexEntry} {s : OpenShader} :
    ∀ open_ : List OpenShader, open_.find? (·.info.sourceHash = hash) = some s →
    s.used.length < s.variantCount →
    ((useEntry hash entry open_).map fun s => s.variantCount - s.used.length).sum + 1 =
      (open_.map fun s => s.variantCount - s.used.length).sum := by
  intro open_
  induction open_ with
  | nil => intro h; cases h
  | cons t rest ih =>
    intro h hcount
    by_cases ht : t.info.sourceHash = hash
    · rw [List.find?_cons_of_pos (by simpa using ht)] at h
      obtain rfl := Option.some.inj h
      rw [useEntry, if_pos ht]
      simp only [List.map_cons, List.sum_cons, List.length_append, List.length_singleton]
      omega
    · rw [List.find?_cons_of_neg (by simpa using ht)] at h
      have hrest := ih h hcount
      rw [useEntry, if_neg ht]
      simp only [List.map_cons, List.sum_cons]
      omega

theorem sum_entriesLeft_of_spoiled (h : w.writeVariant v = (w', .error e))
    (hclaims : w.Claims v) : w'.entriesLeft.sum + 1 = w.entriesLeft.sum := by
  obtain ⟨s, entry, hs, hcount, -, -, more, table, rfl, -⟩ := writeVariant_spoiled h hclaims
  exact sum_left_useEntry w.shaders hs hcount

/-- A file lists the entries that its writer has taken into use. -/
theorem mem_indexKeys_file (hreserved : ∀ s ∈ w.shaders, s.used.length ≤ s.variantCount)
    {s : OpenShader} (hs : s ∈ w.shaders) {entry : IndexEntry} (hentry : entry ∈ s.used)
    (hword : entry.optionWord < 0xFFFFFFFF) :
    ⟨s.info.sourceHash, entry.optionWord⟩ ∈ w.file.indexKeys := by
  obtain ⟨i, hi⟩ := List.getElem?_of_mem hs
  -- the shader is listed where the writer has it
  have hlisted := congrArg (·[i]?) (shaders_file (w := w))
  rw [List.getElem?_map, List.getElem?_map, hi, Option.map_some] at hlisted
  obtain ⟨t, ht, hts⟩ := Option.map_eq_some_iff.mp hlisted
  have hhash : t.info.sourceHash = s.info.sourceHash := congrArg (·.info.sourceHash) hts
  refine List.mem_map.mpr ⟨(t.info.sourceHash, entry), List.mem_flatMap.mpr ⟨(t, i), ?_, ?_⟩, ?_⟩
  · exact List.mem_zipIdx_iff_getElem?.mpr ht
  · refine List.mem_map_of_mem (List.mem_filter.mpr ⟨?_, ?_⟩)
    · rw [entriesOf_file hreserved, hi]
      exact OpenShader.mem_entries_of_mem_used hentry
    · rw [OpenShader.isUnused_eq_false hword]
      rfl
  · rw [SetFile.keyOf, hhash]

/-- The file of a spoiled write lists its variant. -/
theorem mem_indexKeys_of_spoiled (h : w.writeVariant v = (w', .error e)) (hclaims : w.Claims v)
    (hreserved : ∀ s ∈ w'.shaders, s.used.length ≤ s.variantCount)
    (hword : v.key.optionWord < 0xFFFFFFFF) (hplace : w.body.length < Word.limit) :
    v.key ∈ w'.file.indexKeys := by
  obtain ⟨s, entry, hs, hcount, -, hentry, more, table, rfl, -⟩ := writeVariant_spoiled h hclaims
  have hself : (useEntry v.key.sourceHash entry w.shaders).find?
      (·.info.sourceHash = v.key.sourceHash) = some { s with used := s.used ++ [entry] } :=
    find?_useEntry_self w.shaders hs
  have hhash : s.info.sourceHash = v.key.sourceHash := by simpa using List.find?_some hs
  rcases hentry with ⟨-, rfl⟩ | ⟨hfull, -⟩
  · have hlisted := mem_indexKeys_file hreserved (List.mem_of_find?_eq_some hself)
      (List.mem_append_right _ List.mem_cons_self) hword
    rwa [show (⟨s.info.sourceHash, v.key.optionWord⟩ : VariantKey) = v.key from
      VariantKey.eq_of_halves hhash rfl] at hlisted
  · exact absurd hplace (not_lt.mpr hfull)

/-! ### Failing writes -/

/-- **A failing write leaves no trace exactly if it was refused.**  A spoiled write did not fit
somewhere; its index entry is lost, and listed in the file.  After a history without spoiled
writes, a refused write is followed by files that answer with what was written successfully. -/
theorem failed_write {shaders : List ShaderEntry} {written spoiled : List Variant}
    (h : Reached shaders written spoiled w) (hfail : w.writeVariant v = (w', .error e)) :
    (w.Alike w' ↔ ¬ w.Claims v) ∧
    (w.Claims v → e.IsLimit ∧ w'.entriesLeft.sum + 1 = w.entriesLeft.sum ∧
      (v.key.optionWord < 0xFFFFFFFF → w.body.length < Word.limit →
        v.key ∈ w'.file.indexKeys)) ∧
    (¬ w.Claims v → spoiled = [] → ∀ further bytes, Storable shaders (written ++ further) →
      w'.fileAfter further = .ok bytes → ∃ f, SetFile.ofBytes bytes = .ok f ∧
        ∀ number key, ({ file := f, number } : OpenFile).answer key =
          .ok ((written ++ further).find? (·.key = key))) := by
  refine ⟨⟨fun halike hclaims => ?_, alike_of_refused hfail⟩, fun hclaims => ⟨?_, ?_, ?_⟩, ?_⟩
  · -- a spoiled write has used up an entry
    have hsum := sum_entriesLeft_of_spoiled hfail hclaims
    rw [halike.left] at hsum
    omega
  · obtain ⟨-, s, hs, hcount⟩ := hclaims
    exact writeVariant_error hs hcount hfail
  · exact sum_entriesLeft_of_spoiled hfail hclaims
  · exact mem_indexKeys_of_spoiled hfail hclaims (h.spoiled hfail hclaims).reserved
  · intro hrefused hspoiled further bytes hst hfile
    unfold fileAfter at hfile
    cases hrun : w'.writeAll further with
    | error e' => rw [hrun] at hfile; cases hfile
    | ok w'' =>
      rw [hrun] at hfile
      have hwrote := ((h.refused hfail hrefused).writeAll hrun).wrote hspoiled hst.hashes
      obtain ⟨bytes', hfinish, hopen⟩ :=
        ofBytes_finish hwrote hst.toHeaderFits fun u hu => hst.word_lt_limit u hu
      obtain rfl := Except.ok.inj (hfile.symm.trans hfinish)
      exact ⟨w''.file, hopen, fun number key => hwrote.answer_eq hst number key⟩

/-- A second smoke variant, for which there is no entry. -/
def moreSmoke : Variant := ⟨⟨9, 0b0⟩, .withAttachments 0, [], [], [], [5], [6]⟩

set_option maxRecDepth 10000 in
/-- The smoke that is refused cannot be seen in the file. -/
theorem moreSmoke_refused : ∃ w w', run lampEntries lampVariants = .ok w ∧
    w.writeVariant moreSmoke = (w', .error (.noEntryLeft 9 1)) ∧ w.Alike w' ∧
    ∃ bytes f, w'.fileAfter [] = .ok bytes ∧ SetFile.ofBytes bytes = .ok f ∧
      ∀ number key, ({ file := f, number } : OpenFile).answer key =
        .ok (lampVariants.find? (·.key = key)) := by
  have hstorable : Storable lampEntries (lampVariants ++ []) :=
    ⟨⟨by decide, by decide, by decide⟩, by decide, by decide, by decide,
      sharePrograms_lampVariants⟩
  have hsecond : (run lampEntries lampVariants).map (fun w => (w.writeVariant moreSmoke).2) =
      .ok (.error (.noEntryLeft 9 1)) := by rfl
  cases hw : run lampEntries lampVariants with
  | error e => rw [hw] at hsecond; cases hsecond
  | ok w =>
    rw [hw] at hsecond
    have hfail : w.writeVariant moreSmoke =
        ((w.writeVariant moreSmoke).1, .error (.noEntryLeft 9 1)) :=
      Prod.ext rfl (Except.ok.inj hsecond)
    obtain ⟨halike, hspoiled, hanswers⟩ := failed_write (reached_run hw) hfail
    have hrefused : ¬ w.Claims moreSmoke := fun hclaims => by
      rcases (hspoiled hclaims).1 with he | he | he <;> cases he
    obtain ⟨bytes, hfinish, -⟩ := ofBytes_finish (wrote_run (by decide) hw)
      ⟨by decide, by decide, by decide⟩ (by decide)
    have hfile : (w.writeVariant moreSmoke).1.fileAfter [] = .ok bytes :=
      ((halike.mpr hrefused).file []).trans hfinish
    obtain ⟨f, hopen, hf⟩ := hanswers hrefused rfl [] bytes hstorable hfile
    exact ⟨w, _, rfl, hfail, halike.mpr hrefused, bytes, f, hfile, hopen, hf⟩

/-- A lamp with a binding set of 2 GiB. -/
def wideLamp : Variant := ⟨⟨7, 0b00⟩, .withAttachments 0, [], [2 ^ 31], [], [1, 2], [3]⟩

set_option maxRecDepth 10000 in
/-- The lamp that cannot be written takes one of three entries, and its key is listed by the
file, where it cannot be read. -/
theorem wideLamp_spoiled :
    let w : Writer := { shaders := lampEntries.map fun s => { toShaderEntry := s } }
    let w' := (w.writeVariant wideLamp).1
    addAll {} lampEntries = .ok w ∧ (w.writeVariant wideLamp).2 = .error .tooLong ∧
      w.entriesLeft = [3, 1] ∧ w'.entriesLeft = [2, 1] ∧ ¬ w.Alike w' ∧
      ∃ bytes f, w'.fileAfter [] = .ok bytes ∧ SetFile.ofBytes bytes = .ok f ∧
        ({ file := f, number := 0 } : OpenFile).keysOf 7 = [wideLamp.key] ∧
        (({ file := f, number := 0 } : OpenFile).answer wideLamp.key).isOk = false := by
  intro w w'
  have hleft : w.entriesLeft = [3, 1] := by decide
  have hleft' : w'.entriesLeft = [2, 1] := by decide
  obtain ⟨bytes, hfinish, hopen⟩ := ofBytes_finish_of_fits (w := w')
    ⟨by decide, by decide, by decide⟩ (by decide) (by decide)
  refine ⟨rfl, by rfl, hleft, hleft', fun halike => ?_, bytes, w'.file, hfinish, hopen, ?_⟩
  · rw [halike.left] at hleft'
    exact absurd (hleft.symm.trans hleft') (by decide)
  · constructor <;> cbv

end Writer

end ShaderVariants
