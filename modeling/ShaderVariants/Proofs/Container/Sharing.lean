import Mathlib
import ShaderVariants.Proofs.Binary.Canonical
import ShaderVariants.Proofs.Container.RoundTrip
import ShaderVariants.Proofs.Container.Wrapping

/-!
# Programs shared in a file

In a finished file two variants refer to the same programs exactly if they belong to one
shader and their option words agree outside of its invariance mask.  The programs are those
of the first such variant, and no programs are stored twice.

A file refers to programs by words.  In a build without overflow checks the last programs can
begin behind all words, and then the reference to them leads elsewhere.

## Main definitions

* `SetFile.SharesPrograms` — what the records of a file say about its programs.

## Main results

* `Writer.Wraps.not_sharesPrograms` — a reference that wrapped leads elsewhere.
* `Writer.ReachedIn.sharesPrograms_iff` — **programs are shared as they should be exactly if all
  of them begin at words**, which overflow checks ensure.
* `Writer.hugeLamp_not_shared` — a file in which they are not.
-/

namespace ShaderVariants

/-- The variant with the programs of another one. -/
def Variant.onProgramsOf (v u : Variant) : Variant :=
  { v with vertexProgram := u.vertexProgram, fragmentProgram := u.fragmentProgram }

/-- The body of the file consists of the records of the variants, to which its index leads,
and the records share programs exactly if their variants have the same program key. -/
structure SetFile.SharesPrograms (f : SetFile) (shaders : List ShaderEntry)
    (variants : List Variant) (records : List Record) : Prop where
  written : records.map (·.variant) = variants
  body : f.body = records.flatMap (·.bytes)
  /-- Every record begins where the one before it ends. -/
  consecutive : ∀ front r back, records = front ++ r :: back →
    r.place = (front.flatMap (·.bytes)).length
  /-- The entries of a shader are those of the records of its variants, then unused ones. -/
  index : ∀ i s, shaders[i]? = some s → f.entriesOf i = some (IndexEntry.sorted
    ((records.filter (·.variant.key.sourceHash = s.info.sourceHash)).map (·.entry) ++
      List.replicate (s.variantCount -
        (records.filter (·.variant.key.sourceHash = s.info.sourceHash)).length) .unused))
  /-- Two variants refer to the same place exactly if they belong to one shader and agree
  outside of its mask. -/
  shared : ∀ r ∈ records, ∀ r' ∈ records, r.programPlace = r'.programPlace ↔
    r.variant.key.sourceHash = r'.variant.key.sourceHash ∧
      OptionWord.AgreeOutside (maskOf shaders r.variant.key.sourceHash)
        r.variant.key.optionWord r'.variant.key.optionWord
  /-- At that place there are the programs of the first such variant, directly behind its own
  reference, and they are what is read. -/
  first : ∀ r ∈ records, ∃ o,
    findRecord? shaders records (r.variant.programKey shaders) = some o ∧ o.owner = true ∧
      r.programPlace = o.place + (encode o.variant.body).bytes.length + 4 ∧
      Found f.body r.programPlace o.variant.programs ∧
      f.readVariant r.variant.key.sourceHash r.entry =
        .ok ⟨r.variant.onProgramsOf o.variant, r.programPlace⟩
  /-- There are as many programs in the file as program keys. -/
  count : (records.filter (·.owner)).length =
    (variants.map (·.programKey shaders)).toFinset.card

namespace SetFile

variable {f : SetFile} {shaders : List ShaderEntry} {variants : List Variant}
  {records : List Record}

theorem exists_of_map_ok {ε α β : Type} {g : α → β} {x : Except ε α} {b : β}
    (h : x.map g = .ok b) : ∃ a, x = .ok a ∧ g a = b := by
  cases x with
  | error e => cases h
  | ok a => exact ⟨a, rfl, Except.ok.inj h⟩

/-- Whatever is read refers to programs by a word. -/
theorem programPlace_lt {hash : UInt32} {e : IndexEntry} {read : ReadVariant}
    (h : f.readVariant hash e = .ok read) : read.programPlace < Word.limit := by
  obtain ⟨body, programs, hbody, -⟩ := readVariant_ok h
  unfold bodyAt StateT.run at hbody
  dsimp only at hbody
  obtain ⟨⟨head, rest⟩, hhead, hplace⟩ := exists_of_map_ok hbody
  -- the word is the last thing that is read
  obtain ⟨body', middle, -, hhead⟩ := Decoder.exists_of_run_bind hhead
  obtain ⟨place, rest', hword, hpure⟩ := Decoder.exists_of_run_bind hhead
  cases hpure
  cases hplace
  exact fits_word_iff.mp (Decoder.Canonical.word hword).1

theorem SharesPrograms.programPlace_lt (h : f.SharesPrograms shaders variants records) :
    ∀ r ∈ records, r.programPlace < Word.limit := by
  intro r hr
  obtain ⟨o, -, -, -, -, hread⟩ := h.first r hr
  exact SetFile.programPlace_lt hread

end SetFile

theorem findRecord?_eq_none_iff {shaders : List ShaderEntry} {records : List Record}
    {key : VariantKey} : findRecord? shaders records key = none ↔
      ∀ v ∈ records.map (·.variant), v.programKey shaders ≠ key := by
  unfold findRecord?
  simp

namespace Writer

variable {shaders : List ShaderEntry} {variants : List Variant} {records : List Record}
  {w : Writer}

theorem mem_shaders_of_getElem? (h : w.shaders.map (·.toShaderEntry) = shaders) {i : ℕ}
    {s : ShaderEntry} (hs : shaders[i]? = some s) :
    ∃ t, w.shaders[i]? = some t ∧ t.toShaderEntry = s := by
  rw [← h, List.getElem?_map] at hs
  exact Option.map_eq_some_iff.mp hs

/-- The file of a writer whose body consists of records. -/
theorem Placed.sharesPrograms (h : Placed shaders records w)
    (hwrote : Wrote shaders (records.map (·.variant)) w)
    (hhashes : (shaders.map (·.info.sourceHash)).Nodup) :
    w.file.SharesPrograms shaders (records.map (·.variant)) records := by
  refine ⟨rfl, h.body, fun front r back hsplit => ?_, fun i s hs => ?_, fun r hr r' hr' => ?_,
    fun r hr => ?_, ?_⟩
  · rw [h.sharing.consecutive front r back hsplit]
    exact (length_flatMap_bytes fun q hq => h.fits q (hsplit ▸ List.mem_append_left _ hq)).symm
  · obtain ⟨t, ht, rfl⟩ := mem_shaders_of_getElem? h.announced hs
    have hfind : w.shaders.find? (·.info.sourceHash = t.info.sourceHash) = some t :=
      (find?_key_iff (hwrote.nodup_hashes hhashes)).mpr ⟨List.mem_of_getElem? ht, rfl⟩
    rw [entriesOf_file hwrote.reserved, ht, Option.map_some, OpenShader.entries,
      h.used _ t hfind, List.length_map]
  · rw [h.sharing.programPlace_eq_iff hr hr']
    exact Variant.programKey_eq_iff
  · obtain ⟨o, ho, howner, hplace⟩ := h.sharing.first r hr
    have hmem := (h.sharing.owner_of_find ho).1
    have hprograms := (h.found hmem).2 howner
    rw [hplace] at hprograms
    refine ⟨o, ho, howner, ?_, hprograms, ?_⟩
    · rw [← hplace]
      exact h.sharing.own o hmem howner
    · have hbody : Found w.file.body r.entry.offset
          (encode r.variant.body ++ Encoded.word r.programPlace) := (h.found hr).1
      exact w.file.readVariant_eq _ hbody (w.file.programsAt_eq hprograms)
  · rw [h.sharing.length_owners, List.map_map]
    rfl

/-! ### Programs behind the last word -/

/-- **A reference that wrapped leads elsewhere**: the programs of the last variant do not begin
where the file says. -/
theorem Wraps.not_sharesPrograms {w' : Writer} {written : List Variant} {v : Variant}
    (h : w.Wraps v) (hreached : Reached shaders written [] w.checked)
    (hwrite : w.writeVariant v = (w', .ok ())) :
    ¬ w'.file.SharesPrograms shaders (written ++ [v]) records := by
  intro hshares
  obtain ⟨hnone, -, -⟩ := h.nextRecord_eq (hreached.placed rfl)
  obtain ⟨-, ⟨s, hs, hlookup⟩, hplace⟩ := h
  -- the last record is that of the variant, and no earlier one has its program key
  obtain ⟨front, last, rfl, hfront, hlast⟩ := List.map_eq_append_iff.mp hshares.written
  obtain ⟨r, rfl, rfl⟩ := List.map_eq_singleton_iff.mp hlast
  have hmem : r ∈ front ++ [r] := List.mem_append_right _ List.mem_cons_self
  obtain ⟨o, ho, howner, hown, -⟩ := hshares.first r hmem
  have hfind : findRecord? shaders (front ++ [r]) (r.variant.programKey shaders) = some r := by
    rw [findRecord?_eq_none_iff, map_variant_body, ← hfront, ← findRecord?_eq_none_iff] at hnone
    unfold findRecord? at hnone ⊢
    rw [List.find?_append, hnone]
    simp
  obtain rfl := Option.some.inj (hfind.symm.trans ho)
  -- so its programs end the body, and it begins where the body ended before
  have hword := hshares.programPlace_lt r hmem
  have hbegin := hshares.consecutive front r [] rfl
  have hbody : w'.body = front.flatMap (·.bytes) ++ r.bytes := by
    have hall : w'.body = (front ++ [r]).flatMap (·.bytes) := hshares.body
    rw [hall, List.flatMap_append, List.flatMap_singleton]
  obtain ⟨s', hs', -, -, -, p, more, table, hfits, hrefers, rfl⟩ := writeVariant_ok hwrite
  obtain rfl := Option.some.inj (hs.symm.trans hs')
  cases hrefers with
  | shared hp => cases hlookup.symm.trans hp
  | own =>
    have hlast : r.bytes.length = (encode r.variant.body).bytes.length + 4 +
        r.variant.programs.bytes.length := by
      rw [Record.bytes, if_pos howner, List.length_append, List.length_append,
        length_word (fits_word_iff.mpr hword)]
    have hlength := congrArg List.length hbody
    simp only [List.length_append, length_word hfits, hlast] at hlength
    omega

/-! ### Programs of a history -/

/-- **Programs are shared exactly as they should be if all of them begin at words.**  For
shaders with distinct checksums and variants accepted in any order, in builds of either kind:
the file can be finished, unless nothing was written and the header does not fit, and it can be
opened.  Its programs are shared exactly where program keys are the same, if and only if all of
them begin at words.  With overflow checks they always do. -/
theorem ReachedIn.sharesPrograms_iff {o : Overflow} {written : List Variant}
    (h : ReachedIn o shaders written [] w) (hhashes : (shaders.map (·.info.sourceHash)).Nodup)
    (hwords : ∀ v ∈ written, v.key.optionWord < Word.limit) :
    (written ≠ [] → ∃ bytes, w.finish = .ok bytes) ∧
    (o = .refused → PlacesFit shaders written) ∧
    ∀ bytes, w.finish = .ok bytes → ∃ f, SetFile.ofBytes bytes = .ok f ∧
      ((∃ records, f.SharesPrograms shaders written records) ↔ PlacesFit shaders written) ∧
      (PlacesFit shaders written →
        f.SharesPrograms shaders written (layOut shaders [] written)) := by
  have hwords' : ∀ v ∈ written ++ [], v.key.optionWord < Word.limit := by
    rwa [List.append_nil]
  have hshares : PlacesFit shaders written →
      w.file.SharesPrograms shaders written (layOut shaders [] written) := by
    intro hfit
    have hchecked := h.reached_checked hfit
    have hvariants := map_variant_body shaders written
    have hfile := (hchecked.placed rfl).sharesPrograms
      (hvariants.symm ▸ hchecked.wrote rfl hhashes) hhashes
    rwa [hvariants] at hfile
  refine ⟨fun hne => ?_, ?_, fun bytes hfinish => ⟨w.file, h.ofBytes_finish hwords' hfinish,
    ⟨?_, fun hfit => ⟨_, hshares hfit⟩⟩, hshares⟩⟩
  · obtain ⟨bytes, hfinish, -⟩ := h.exists_finish hwords' hne
    exact ⟨bytes, hfinish⟩
  · rintro rfl
    exact h.placesFit
  · rintro ⟨records, hrecords⟩
    rcases h.checked_or_wrapped rfl with hchecked | ⟨init, v, w₀, rfl, hinit, hwraps, hwrite⟩
    · exact hchecked.placesFit
    · exact absurd hrecords (hwraps.not_sharesPrograms hinit hwrite)

set_option maxRecDepth 10000 in
/-- Both variants of the lamp refer to the programs that follow the first of them. -/
theorem lampVariants_sharePrograms :
    ∃ w bytes f, Reached lampEntries lampVariants [] w ∧ w.finish = .ok bytes ∧
      SetFile.ofBytes bytes = .ok f ∧
      f.SharesPrograms lampEntries lampVariants (layOut lampEntries [] lampVariants) ∧
      (layOut lampEntries [] lampVariants).map (·.owner) = [true, true, false] := by
  have hrun : (run lampEntries lampVariants).isOk = true := by decide
  cases hw : run lampEntries lampVariants with
  | error e => rw [hw] at hrun; cases hrun
  | ok w =>
    have hreached := reached_run hw
    obtain ⟨hfinish, hfit, hshares⟩ := hreached.sharesPrograms_iff (by decide) (by decide)
    obtain ⟨bytes, hbytes⟩ := hfinish (by decide)
    obtain ⟨f, hopen, -, hf⟩ := hshares bytes hbytes
    exact ⟨w, bytes, f, hreached, hbytes, hopen, hf (hfit rfl), by decide⟩

/-! ### A file beyond 4 GiB -/

theorem fits_blob {bytes : List UInt8} (h : bytes.length < Word.signedLimit) :
    (Encoded.blob bytes).fits = true ∧ (Encoded.blob bytes).bytes.length = 4 + bytes.length := by
  rw [Encoded.blob, Encoded.count, if_pos h]
  refine ⟨rfl, ?_⟩
  rw [Encoded.bytes_append_of_fits rfl, List.length_append]
  rfl

/-- Programs fit if their lengths do. -/
theorem fits_programs {v : Variant} (hvertex : v.vertexProgram.length < Word.signedLimit)
    (hfragment : v.fragmentProgram.length < Word.signedLimit) : v.programs.fits = true ∧
      v.programs.bytes.length = 8 + v.vertexProgram.length + v.fragmentProgram.length := by
  obtain ⟨hvertexFits, hvertexLength⟩ := fits_blob hvertex
  obtain ⟨hfragmentFits, hfragmentLength⟩ := fits_blob hfragment
  rw [Variant.programs, Encoded.fits_append, Encoded.bytes_append_of_fits hvertexFits,
    List.length_append, hvertexFits, hfragmentFits, hvertexLength, hfragmentLength]
  exact ⟨rfl, by omega⟩

/-- A lamp with programs of these lengths. -/
def hugeLamp (n m : ℕ) : Variant :=
  ⟨⟨7, 0b00⟩, .withAttachments 0, [], [], [], List.replicate n 0, List.replicate m 0⟩

/-- The lamp that glows, without programs. -/
def emptyLamp : Variant := ⟨⟨7, 0b01⟩, .withAttachments 0, [], [], [], [], []⟩

/-- A writer without overflow checks to which lamp and smoke were announced. -/
def lampWriter : Writer :=
  { shaders := lampEntries.map fun s => { toShaderEntry := s }, overflow := .wrapped }

set_option maxRecDepth 10000 in
theorem encode_emptyLamp :
    (encode emptyLamp.body).fits = true ∧ (encode emptyLamp.body).bytes.length = 62 := by
  decide

/-- The programs of the first lamp are found, and behind them there is no word for others. -/
theorem exists_hugeLamp {n m : ℕ} (hn : n < Word.signedLimit) (hm : m < Word.signedLimit)
    (hbeyond : Word.limit ≤ 140 + n + m) :
    ∃ w, ReachedIn .wrapped lampEntries [hugeLamp n m] [] w ∧
      Reached lampEntries [hugeLamp n m] [] w.checked ∧ w.overflow = .wrapped ∧
      w.body.length = 74 + n + m ∧ w.Wraps emptyLamp := by
  obtain ⟨hfits, hlength⟩ := encode_emptyLamp
  have hvertex : (hugeLamp n m).vertexProgram.length = n := List.length_replicate
  have hfragment : (hugeLamp n m).fragmentProgram.length = m := List.length_replicate
  obtain ⟨hprograms, hprogramsLength⟩ := fits_programs (hvertex.symm ▸ hn) (hfragment.symm ▸ hm)
  rw [hvertex, hfragment] at hprogramsLength
  -- both lamps have the same body
  have hbody : (encode (hugeLamp n m).body).bytes.length = 62 := hlength
  have hclaims : lampWriter.Claims (hugeLamp n m) := ⟨⟨_, rfl⟩, _, rfl, Nat.zero_lt_succ 2⟩
  have hplace : lampWriter.body.length + (encode (hugeLamp n m).body).bytes.length = 62 := by
    rw [hbody]
    rfl
  have hwrite := writeVariant_of_own (p := 66) hclaims rfl rfl hfits hprograms
    (by rw [hplace]; decide) (by rw [hplace]; rfl)
  obtain ⟨w, hw⟩ : ∃ w, lampWriter.writeVariant (hugeLamp n m) = (w, .ok ()) := ⟨_, hwrite⟩
  obtain ⟨rfl, -⟩ := Prod.mk.inj (hw.symm.trans hwrite)
  have hend : (lampWriter.body ++ (encode (hugeLamp n m).body).bytes ++ (Encoded.word 66).bytes ++
      (hugeLamp n m).programs.bytes).length = 74 + n + m := by
    rw [List.length_append, List.length_append, List.length_append, hplace,
      length_word (by decide), hprogramsLength]
    omega
  have hother : List.lookup (lampEntries[0].info.programKey 0b01)
      [(lampEntries[0].info.programKey 0b00, 66)] = none := by decide
  have hnew : ∀ o : Overflow, ReachedIn o lampEntries [] [] { lampWriter with overflow := o } :=
    fun o => ReachedIn.new.addAll (addAll_eq lampEntries { overflow := o } rfl)
  have hchecked := writeVariant_checked (w := lampWriter) (v := hugeLamp n m) fun hwraps => by
    have hbegin := hwraps.2.2
    rw [hplace] at hbegin
    exact absurd hbegin (by decide)
  rw [hw] at hchecked
  refine ⟨_, (hnew .wrapped).accepted hw, (hnew .refused).accepted hchecked, rfl, hend,
    ⟨⟨_, rfl⟩, _, rfl, Nat.lt_of_sub_eq_succ rfl⟩, ⟨_, rfl, hother⟩, ?_⟩
  dsimp only
  rw [hend, hlength]
  omega

/-- **A file in which programs are not shared as they should be.**  Behind the two programs of
the first lamp, of 2 GiB less one byte and of 139 bytes less than 2 GiB, the programs of the
second one begin at the first number that is no word. -/
theorem hugeLamp_not_shared : ∃ w bytes f,
    ReachedIn .wrapped lampEntries [hugeLamp 2147483647 2147483509, emptyLamp] [] w ∧
      w.finish = .ok bytes ∧ SetFile.ofBytes bytes = .ok f ∧ ∀ records,
        ¬ f.SharesPrograms lampEntries [hugeLamp 2147483647 2147483509, emptyLamp] records := by
  obtain ⟨hfits, hlength⟩ := encode_emptyLamp
  obtain ⟨w₁, hfirst, hchecked, hoverflow, hbody, hwraps⟩ :=
    exists_hugeLamp (n := 2147483647) (m := 2147483509) (by decide) (by decide) (by decide)
  obtain ⟨w₂, hsecond⟩ := hwraps.exists_write hoverflow hfits (by decide)
    (by rw [hbody, hlength]; decide)
  have hreached := hfirst.accepted hsecond
  have hwords : ∀ u ∈ [hugeLamp 2147483647 2147483509] ++ [emptyLamp] ++ [],
      u.key.optionWord < Word.limit := by
    intro u hu
    rcases List.mem_cons.mp hu with rfl | hu
    · exact Nat.zero_lt_succ _
    · rw [List.mem_singleton.mp hu]
      decide
  obtain ⟨bytes, hfinish, hopen⟩ := hreached.exists_finish hwords (List.cons_ne_nil _ _)
  exact ⟨w₂, bytes, w₂.file, hreached, hfinish, hopen,
    fun records => hwraps.not_sharesPrograms hchecked hsecond⟩

end Writer

end ShaderVariants
