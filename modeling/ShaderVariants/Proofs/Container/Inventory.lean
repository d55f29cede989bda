import Mathlib
import ShaderVariants.Proofs.Container.Failure
import ShaderVariants.Proofs.Container.Listing
import ShaderVariants.Proofs.Container.Recovery
import ShaderVariants.Proofs.Container.Sharing

/-!
# Listing what was written

The listing of a finished file tells which variants were written and which of them share their
programs.  What the writer has taken for the same programs is at one place of the file, an
opened file gives that place with each variant, and the tool compares nothing but places.

## Main definitions

* `ShaderEntry.Nameable` — a build of the tool can compute the names of a shader's variants.
* `Writer.Catalogued` — a writer with shaders and variants that can be told apart.

## Main results

* `Writer.Catalogued.exists_readAt?` — what is read under a key.
* `Writer.Catalogued.variantsOf_eq`, `Writer.Catalogued.nameable_of_variantsOf` — the listings
  of some shaders, one after the other, and what it takes.
* `Writer.ReachedIn.variantsText_truthful` — **the listing of a finished file is the truth**,
  whatever has been looked up before.
* `Writer.wideLamp_not_listed` — there is no listing if a write was spoiled.
-/

namespace ShaderVariants

/-- Two variants that a file gives in one state share their programs if these are at one
place. -/
theorem OpenFile.sharesPrograms_keep {o : OpenFile} {a b : ReadVariant} :
    (o.keep a).sharesPrograms (o.keep b) = true ↔ a.programPlace = b.programPlace := by
  simp [Loaded.sharesPrograms, OpenFile.keep]

/-- There are no variants of the shader to be named, or their names can be computed. -/
def ShaderEntry.Nameable (o : Overflow) (written : List Variant) (t : ShaderEntry) : Prop :=
  (∃ v ∈ written, v.key.sourceHash = t.info.sourceHash) → o = .wrapped ∨ t.info.FitsWord

namespace Writer

variable {shaders : List ShaderEntry} {written spoiled : List Variant} {records : List Record}
  {w w' : Writer}

/-! ### A writer whose variants can be told apart -/

/-- The body consists of the records, and nobody can confuse shaders or variants. -/
structure Catalogued (shaders : List ShaderEntry) (records : List Record) (w : Writer) : Prop
    extends Placed shaders records w where
  wrote : Wrote shaders (records.map (·.variant)) w
  distinguishable : Distinguishable shaders (records.map (·.variant))
  names : (shaders.map (·.name)).Nodup

namespace Catalogued

variable {s : OpenShader} (h : Catalogued shaders records w)

include h

theorem find?_eq (hs : s ∈ w.shaders) :
    w.shaders.find? (·.info.sourceHash = s.info.sourceHash) = some s :=
  (find?_key_iff (h.wrote.nodup_hashes h.distinguishable.hashes)).mpr ⟨hs, rfl⟩

/-- The keys of a shader are those of its records. -/
theorem exists_of_mem_keysOf {o : OpenFile} (hfile : o.file = w.file) {key : VariantKey}
    (hkey : key ∈ o.keysOf s.info.sourceHash) :
    ∃ r ∈ records, r.variant.key = key ∧ s.info.sourceHash = key.sourceHash := by
  obtain ⟨hmem, hhash⟩ := (h.wrote.mem_keysOf h.distinguishable hfile).mp hkey
  rw [List.map_map] at hmem
  obtain ⟨r, hr, hrkey⟩ := List.mem_map.mp hmem
  exact ⟨r, hr, hrkey, hhash.symm⟩

/-! ### Variants -/

/-- **What is read under the key of a record**: its variant, with the programs of the first
record that has its program key, and the place of these. -/
theorem exists_readAt? {r : Record} (hr : r ∈ records) : ∃ o,
    findRecord? shaders records (r.variant.programKey shaders) = some o ∧
      w.file.readAt? r.variant.key = some ⟨r.variant.onProgramsOf o.variant, r.programPlace⟩ := by
  obtain ⟨s, hs, hhash⟩ := h.wrote.known r.variant (List.mem_map_of_mem hr)
  have hused : r.entry ∈ s.used := by
    rw [h.used _ s (h.find?_eq hs)]
    exact List.mem_map_of_mem (List.mem_filter.mpr ⟨hr, decide_eq_true hhash.symm⟩)
  obtain ⟨i, hposition, hi⟩ := h.wrote.exists_position (o := { file := w.file, number := 0 })
    h.distinguishable rfl hs
  have he : r.entry ∈ w.file.usedEntriesOf i :=
    (h.wrote.perm_usedEntriesOf h.distinguishable hi).mem_iff.mpr hused
  have hentry : w.file.entryOf? r.variant.key = some r.entry := by
    rw [SetFile.entryOf?, ← hhash, hposition, Option.bind_some]
    exact (h.wrote.distinct_file h.distinguishable).findEntry?_of_mem he
  obtain ⟨o, ho, -, -, -, hread⟩ :=
    (h.toPlaced.sharesPrograms h.wrote h.distinguishable.hashes).first r hr
  exact ⟨o, ho, SetFile.readAt?_of_ok (e := r.entry) hentry hread⟩

/-- What is read under a key of a shader comes from one of its records. -/
theorem exists_record {o : OpenFile} (hfile : o.file = w.file) (hs : s ∈ w.shaders)
    {key : VariantKey} (hkey : key ∈ o.keysOf s.info.sourceHash) {read : ReadVariant}
    (hread : w.file.readAt? key = some read) : ∃ r ∈ records,
      s.info.programKey key.optionWord = r.variant.programKey shaders ∧
      read.variant.key = key ∧ read.programPlace = r.programPlace ∧
      ∃ first, findRecord? shaders records (r.variant.programKey shaders) = some first ∧
        read.variant.vertexProgram = first.variant.vertexProgram ∧
        read.variant.fragmentProgram = first.variant.fragmentProgram := by
  obtain ⟨r, hr, rfl, hhash⟩ := h.exists_of_mem_keysOf hfile hkey
  obtain ⟨first, hfirst, hread'⟩ := h.exists_readAt? hr
  obtain rfl := Option.some.inj (hread.symm.trans hread')
  exact ⟨r, hr, h.programKey_eq (hhash ▸ h.find?_eq hs), rfl, rfl, first, hfirst, rfl, rfl⟩

/-- The shader with a name is the one that was announced with it. -/
theorem infoNamed?_eq {l : LookupSet} (hfile : l.own.file = w.file) (hs : s ∈ w.shaders) :
    l.infoNamed? s.name = some s.info := by
  have hnames : (w.shaders.map (·.name)).Nodup := by
    have hmap := h.names
    rwa [← h.announced, List.map_map] at hmap
  have hfind : w.shaders.find? (·.name = s.name) = some s :=
    (find?_key_iff hnames).mpr ⟨hs, rfl⟩
  -- the file keeps names and descriptions, in order
  have hown : (w.file.shaders.find? (·.name = s.name)).map (·.info) = some s.info := by
    have hmap := congrArg (fun l => (l.find? (·.name = s.name)).map (·.info))
      (shaders_file (w := w))
    rw [List.find?_map, List.find?_map, Option.map_map, Option.map_map] at hmap
    refine hmap.trans ?_
    change (w.shaders.find? (·.name = s.name)).map _ = _
    rw [hfind]
    rfl
  rw [LookupSet.infoNamed?, LookupSet.files, List.findSome?_cons, hfile, hown]

/-! ### Listings -/

/-- **The listing of a shader**: its keys are looked up one after the other, and what is listed
of the variants is the truth. -/
theorem exists_listing (hs : s ∈ w.shaders) {o : Overflow}
    (hnames : s.Nameable o (records.map (·.variant))) {l : LookupSet}
    (hl : OpenFile.Exact w.file l.own) :
    ∃ all o', l.getNamed o s.info (l.own.keysOf s.info.sourceHash) =
        ({ l with own := o' }, .ok (all.map (LookupSet.named o s.info))) ∧
      OpenFile.Exact w.file o' ∧ all.map (·.variant.key) = l.own.keysOf s.info.sourceHash ∧
      Loaded.Grouped s.info all ∧
      (Loaded.listing s.info o s.name all).Truthful o shaders (records.map (·.variant))
        s.toShaderEntry := by
  have hfile := hl.file
  have hnamed : ∀ key ∈ l.own.keysOf s.info.sourceHash,
      ∃ name, s.info.variantNameInWords o key.optionWord = .ok name := by
    intro key hkey
    obtain ⟨r, hr, rfl, hhash⟩ := h.exists_of_mem_keysOf hfile hkey
    exact ShaderInfo.exists_variantNameInWords_iff.mpr
      (hnames ⟨r.variant, List.mem_map_of_mem hr, hhash.symm⟩)
  have hkeys : ∀ key ∈ l.own.keysOf s.info.sourceHash,
      ∃ read, w.file.readAt? key = some read := by
    intro key hkey
    obtain ⟨r, hr, rfl, -⟩ := h.exists_of_mem_keysOf hfile hkey
    obtain ⟨first, -, hread⟩ := h.exists_readAt? hr
    exact ⟨_, hread⟩
  obtain ⟨reads, hreads⟩ := exists_forall₂ hkeys
  obtain ⟨o', hget, ho'⟩ := LookupSet.getNamed_of_readAt? hreads hnamed hl
  have hall : (reads.map l.own.keep).map (·.variant.key) = l.own.keysOf s.info.sourceHash := by
    rw [List.map_map, ← List.forall₂_eq_eq_eq, List.forall₂_map_left_iff]
    exact (hreads.imp fun _ _ hread => SetFile.key_of_readAt? hread).flip
  -- each of them comes from a record
  have hrecord : ∀ read ∈ reads, ∃ r ∈ records,
      (l.own.keep read).programKey s.info = r.variant.programKey shaders ∧
      read.programPlace = r.programPlace ∧
      ∃ first, findRecord? shaders records (r.variant.programKey shaders) = some first ∧
        read.variant.vertexProgram = first.variant.vertexProgram ∧
        read.variant.fragmentProgram = first.variant.fragmentProgram := by
    intro read hread
    obtain ⟨key, hkey, hat⟩ := exists_of_mem_left hreads.flip hread
    obtain ⟨r, hr, hprogramKey, rfl, hrest⟩ := h.exists_record hfile hs hkey hat
    exact ⟨r, hr, hprogramKey, hrest⟩
  have hgrouped : Loaded.Grouped s.info (reads.map l.own.keep) := by
    refine ⟨?_, fun a ha b hb => ?_⟩
    · have hascending := h.wrote.pairwise_keysOf h.distinguishable hfile s.info.sourceHash
      rw [← hall] at hascending
      exact hascending.of_map (·.variant.key) fun _ _ hlt => hlt
    · obtain ⟨x, hx, rfl⟩ := List.mem_map.mp ha
      obtain ⟨y, hy, rfl⟩ := List.mem_map.mp hb
      obtain ⟨r, hr, hkey, hplace, -⟩ := hrecord x hx
      obtain ⟨r', hr', hkey', hplace', -⟩ := hrecord y hy
      rw [OpenFile.sharesPrograms_keep, hplace, hplace', h.sharing.programPlace_eq_iff hr hr',
        hkey, hkey']
  refine ⟨reads.map l.own.keep, o', hget, ho', hall, hgrouped,
    truthful_of_loaded hgrouped (fun v hv => ?_) ?_ ?_⟩
  · exact hnamed _ (hall ▸ List.mem_map_of_mem hv)
  · intro key
    rw [hall]
    exact h.wrote.mem_keysOf h.distinguishable hfile
  · intro v hv
    obtain ⟨read, hread, rfl⟩ := List.mem_map.mp hv
    obtain ⟨r, -, hkey, -, first, hfirst, hprograms⟩ := hrecord read hread
    refine ⟨first.variant, ?_, hprograms⟩
    rw [hkey, List.find?_map]
    exact congrArg (Option.map (·.variant)) hfirst

/-- **The listings of some shaders**, one after the other. -/
theorem variantsOf_eq {o : Overflow} : ∀ (ts : List OpenShader), (∀ t ∈ ts, t ∈ w.shaders) →
    (∀ t ∈ ts, t.Nameable o (records.map (·.variant))) → ∀ {l : LookupSet},
    OpenFile.Exact w.file l.own → ∃ listings o',
      l.variantsOf o (ts.map (·.name)) =
        ({ l with own := o' }, .ok (String.join (listings.map ShaderListing.text))) ∧
      List.Forall₂ (ShaderListing.Truthful o shaders (records.map (·.variant)))
        (ts.map (·.toShaderEntry)) listings := by
  intro ts
  induction ts with
  | nil => exact fun _ _ l _ => ⟨[], l.own, rfl, .nil⟩
  | cons t rest ih =>
    intro hts hnames l hl
    obtain ⟨ht, hrest⟩ := List.forall_mem_cons.mp hts
    obtain ⟨hname, hnames⟩ := List.forall_mem_cons.mp hnames
    obtain ⟨all, o₁, hget, ho₁, hall, hgrouped, htruthful⟩ := h.exists_listing ht hname hl
    obtain ⟨listings, o₂, hrest, hlistings⟩ := ih hrest hnames (l := { l with own := o₁ }) ho₁
    refine ⟨Loaded.listing t.info o t.name all :: listings, o₂, ?_, .cons htruthful hlistings⟩
    rw [List.map_cons, List.map_cons, String.join_cons]
    exact variantsOf_cons hgrouped (h.infoNamed?_eq hl.file ht) hget hall hrest

/-- **Shaders are listed only if the names of their variants can be computed.** -/
theorem nameable_of_variantsOf {o : Overflow} : ∀ (ts : List OpenShader),
    (∀ t ∈ ts, t ∈ w.shaders) → ∀ {l l' : LookupSet} {text : String},
    OpenFile.Exact w.file l.own → l.variantsOf o (ts.map (·.name)) = (l', .ok text) →
    ∀ t ∈ ts, t.Nameable o (records.map (·.variant)) := by
  intro ts
  induction ts with
  | nil => exact fun _ _ _ _ _ _ t ht => absurd ht List.not_mem_nil
  | cons t rest ih =>
    intro hts l l' text hl hok
    obtain ⟨ht, hrest⟩ := List.forall_mem_cons.mp hts
    rw [List.map_cons, LookupSet.variantsOf, h.infoNamed?_eq hl.file ht] at hok
    dsimp only at hok
    split at hok
    · cases hok
    · next l₁ all hget =>
      have hname : t.Nameable o (records.map (·.variant)) := by
        rintro ⟨v, hv, hhash⟩
        have hkey := (h.wrote.mem_keysOf h.distinguishable hl.file).mpr
          ⟨List.mem_map_of_mem hv, hhash⟩
        exact ShaderInfo.exists_variantNameInWords_iff.mp
          (LookupSet.exists_name_of_getNamed hget _ hkey)
      -- the file stays what it is while the variants of the shader are looked up
      obtain ⟨all', o₁, hget', ho₁, -⟩ := h.exists_listing ht hname hl
      obtain ⟨rfl, -⟩ := Prod.mk.inj (hget.symm.trans hget')
      split at hok
      · cases hok
      · next hlater => exact List.forall_mem_cons.mpr ⟨hname, ih hrest ho₁ hlater⟩

omit h in
theorem variantsText_none (o : Overflow) {l : LookupSet} (hl : OpenFile.Exact w.file l.own) :
    l.variantsText o none = (l.variantsOf o (w.shaders.map (·.name))).2 := by
  have hnames := congrArg (List.map (·.name)) (shaders_file (w := w))
  rw [List.map_map, List.map_map] at hnames
  rw [LookupSet.variantsText, LookupSet.shaderNames, hl.file]
  exact congrArg (fun names => (l.variantsOf o names).2) hnames

/-- The listing of the whole file. -/
theorem variantsText_eq {o : Overflow} (hnames : ∀ t ∈ shaders,
      t.Nameable o (records.map (·.variant))) {l : LookupSet} (hl : OpenFile.Exact w.file l.own) :
    ∃ listings, l.variantsText o none = .ok (String.join (listings.map ShaderListing.text)) ∧
      List.Forall₂ (ShaderListing.Truthful o shaders (records.map (·.variant))) shaders
        listings := by
  have hts : ∀ t ∈ w.shaders, t.Nameable o (records.map (·.variant)) := fun t ht =>
    hnames t.toShaderEntry (h.announced ▸ List.mem_map_of_mem ht)
  obtain ⟨listings, o', htext, hlistings⟩ := h.variantsOf_eq w.shaders (fun _ ht => ht) hts hl
  rw [h.announced] at hlistings
  refine ⟨listings, ?_, hlistings⟩
  rw [variantsText_none o hl, htext]

theorem nameable_of_variantsText {o : Overflow} {l : LookupSet}
    (hl : OpenFile.Exact w.file l.own) (hok : ∃ text, l.variantsText o none = .ok text) :
    ∀ t ∈ shaders, t.Nameable o (records.map (·.variant)) := by
  intro t ht
  obtain ⟨text, hok⟩ := hok
  rw [variantsText_none o hl] at hok
  rw [← h.announced] at ht
  obtain ⟨u, hu, rfl⟩ := List.mem_map.mp ht
  exact h.nameable_of_variantsOf w.shaders (fun _ ht => ht) hl (Prod.ext rfl hok) u hu

end Catalogued

/-- **The listing of a finished file is the truth.**  Whatever the order of writing, with calls
that were refused among them, and whatever has been looked up in the opened file, every shader
is listed with the keys that were written for it, in ascending order.  A key is listed with the
programs of another one exactly if a smaller key of the shader has the same program key, and
the other one is the smallest of these.  In the end there are as many programs as program keys.
This leaves one listing only, and it is printed exactly if the names in it can be computed.

Shaders have distinct checksums and names, keys are distinct and not those of unused entries,
and if the writer has no overflow checks, all programs begin at words. -/
theorem ReachedIn.variantsText_truthful {o : Overflow} (h : ReachedIn o shaders written [] w)
    (hplaces : o = .refused ∨ PlacesFit shaders written)
    (hhashes : (shaders.map (·.info.sourceHash)).Nodup) (hnames : (shaders.map (·.name)).Nodup)
    (hkeys : (written.map (·.key)).Nodup) (hwords : ∀ v ∈ written, v.key.optionWord < 0xFFFFFFFF)
    {bytes : List UInt8} (hfinish : w.finish = .ok bytes) :
    ∃ f, SetFile.ofBytes bytes = .ok f ∧ ∀ (o' : Overflow) (number : ℕ) (l : LookupSet),
      OpenFile.Reachable f number l.own →
      ((∃ text, l.variantsText o' none = .ok text) ↔ ∀ t ∈ shaders, t.Nameable o' written) ∧
      ((∀ t ∈ shaders, t.Nameable o' written) → ∃ listings,
        l.variantsText o' none = .ok (String.join (listings.map ShaderListing.text)) ∧
        List.Forall₂ (ShaderListing.Truthful o' shaders written) shaders listings ∧
        ∀ others, List.Forall₂ (ShaderListing.Truthful o' shaders written) shaders others →
          others = listings) := by
  have hchecked : Reached shaders written [] w.checked := by
    refine h.reached_checked (hplaces.elim (fun ho => ?_) id)
    subst ho
    exact h.placesFit
  have hvariants := map_variant_body shaders written
  have hcatalogued : Catalogued shaders (layOut shaders [] written) w.checked :=
    ⟨hchecked.placed rfl, hvariants.symm ▸ hchecked.wrote rfl hhashes,
      hvariants.symm ▸ ⟨hhashes, hkeys, hwords⟩, hnames⟩
  have hopen := h.ofBytes_finish
    (fun v hv => (hwords v (by rwa [List.append_nil] at hv)).trans (by decide)) hfinish
  refine ⟨w.file, hopen, fun o' number l hl => ?_⟩
  have hexact := OpenFile.Exact.of_reachable
    (hcatalogued.wrote.distinct_file hcatalogued.distinguishable) hl
  have hlisting := hcatalogued.variantsText_eq (o := o') (l := l)
  have hnameable := hcatalogued.nameable_of_variantsText (o := o') hexact
  rw [hvariants] at hlisting hnameable
  refine ⟨⟨hnameable, fun hfit => ?_⟩, fun hfit => ?_⟩
  · obtain ⟨listings, htext, -⟩ := hlisting hfit hexact
    exact ⟨_, htext⟩
  · obtain ⟨listings, htext, hlistings⟩ := hlisting hfit hexact
    refine ⟨listings, htext, hlistings, fun others hothers => ?_⟩
    exact List.right_unique_forall₂' (fun _ _ _ h h' => h.unique h') hothers hlistings

set_option maxRecDepth 10000 in
/-- The lamp without blending comes first, and the other one has its programs. -/
theorem lampVariants_listed : ∃ w bytes f, Reached lampEntries lampVariants [] w ∧
    w.finish = .ok bytes ∧ SetFile.ofBytes bytes = .ok f ∧
    ∃ listings, ({ own := { file := f, number := 0 } } : LookupSet).variantsText .refused none =
        .ok (String.join (listings.map ShaderListing.text)) ∧
      List.Forall₂ (ShaderListing.Truthful .refused lampEntries lampVariants) lampEntries
        listings ∧
      ∀ others, List.Forall₂ (ShaderListing.Truthful .refused lampEntries lampVariants)
        lampEntries others → others = listings := by
  have hrun : (run lampEntries lampVariants).isOk = true := by decide
  cases hw : run lampEntries lampVariants with
  | error e => rw [hw] at hrun; cases hrun
  | ok w =>
    have hreached := reached_run hw
    obtain ⟨bytes, hbytes, -⟩ := hreached.exists_finish (by decide) (by decide)
    obtain ⟨f, hopen, hlisted⟩ := hreached.variantsText_truthful (.inl rfl) (by decide) (by decide)
      (by decide) (by decide) hbytes
    have hfit : ∀ t ∈ lampEntries, t.Nameable .refused lampVariants := fun t ht _ =>
      .inr ((by decide : ∀ t ∈ lampEntries, t.info.FitsWord) t ht)
    have hlistings := (hlisted .refused 0 { own := { file := f, number := 0 } } .opened).2 hfit
    exact ⟨w, bytes, f, hreached, hbytes, hopen, hlistings⟩

set_option maxRecDepth 10000 in
/-- There is no listing of the lamp that was written, because of the other one, which was
spoiled: the file has its key, and cannot be read where the index leads. -/
theorem wideLamp_not_listed : ∃ w bytes f, Reached lampEntries [glowingLamp] [wideLamp] w ∧
    w.finish = .ok bytes ∧ SetFile.ofBytes bytes = .ok f ∧
    ({ own := { file := f, number := 0 } } : LookupSet).variantsText .refused none =
      .error (.lookup (.unreadable .endInNumber)) := by
  let fresh : Writer := { shaders := lampEntries.map fun s => { toShaderEntry := s } }
  let w₁ := (fresh.writeVariant glowingLamp).1
  have hadd : addAll {} lampEntries = .ok fresh := rfl
  have hclaims : w₁.Claims wideLamp := ⟨⟨_, rfl⟩, _, rfl, by decide⟩
  have hreached := (((ReachedIn.new.addAll hadd).accepted (v := glowingLamp) rfl).spoiled
    (v := wideLamp) (e := .tooLong) rfl hclaims)
  obtain ⟨bytes, hfinish, hopen⟩ := hreached.exists_finish (by decide) (by decide)
  refine ⟨_, bytes, _, hreached, hfinish, hopen, ?_⟩
  cbv

end Writer

end ShaderVariants
