import Mathlib
import ShaderVariants.Proofs.Glsl.Token
import ShaderVariants.Proofs.Options.Digit
import ShaderVariants.Proofs.Options.Field
import ShaderVariants.Variant

/-!
# Names of variants

The name of a variant lists the options that are not at their first value.  If options and
values are named by identifiers, the name tells which options these are and which values they
have: a name ends where the equals sign or the comma stands.  So no two option words share a
name, whatever the number of bits they take.

## Main definitions

* `ShaderInfo.WellNamed` — options and values with names of their own.
* `ShaderInfo.InRange` — words of which every field holds a value, and nothing else is set.
* `ShaderInfo.parts` — what is listed in the name of a variant.
* `ShaderInfo.FitsWord` — all fields lie within the option word.

## Main results

* `ShaderInfo.variantNameInWords_eq` — within the word, no shift goes too far.
* `ShaderInfo.exists_variantNameInWords_iff` — when the name of a variant can be computed.
* `ShaderInfo.eq_of_foldl_enumerate` — the list of parts is read off the name.
* `ShaderInfo.mem_parts_iff` — the parts say which value an option has.
* `ShaderInfo.variantName_identifies` — **the name of a variant identifies its option word.**
-/

namespace ShaderVariants

open Glsl (isIdentifier isNameChar startsName)

namespace ShaderInfo

/-! ### Names and words -/

/-- Options with different names, whose values have different names. -/
structure WellNamed (info : ShaderInfo) : Prop where
  names : ∀ o ∈ info.options, isIdentifier o.name = true
  nodup_names : (info.options.map (·.name)).Nodup
  values : ∀ o ∈ info.options, ∀ value ∈ o.namedValues, isIdentifier value = true
  nodup_values : ∀ o ∈ info.options, o.namedValues.Nodup

/-- Every field of the word holds a value of its option, and there is nothing but fields. -/
structure InRange (info : ShaderInfo) (w : OptionWord) : Prop where
  field_lt : ∀ p ∈ info.fields, w.field p.2 p.1.bitCount < p.1.valueCount
  covered : ∀ j, w.testBit j = true → ∃ p ∈ info.fields, p.2 ≤ j ∧ j < p.2 + p.1.bitCount

theorem map_fieldsFrom (os : List OptionInfo) : ∀ offset : ℕ,
    (OptionInfo.fieldsFrom offset os).map (·.1) = os := by
  induction os with
  | nil => exact fun _ => rfl
  | cons o rest ih =>
    intro offset
    rw [OptionInfo.fieldsFrom, List.map_cons, ih]

theorem mem_options_of_mem_fields {info : ShaderInfo} {p : OptionInfo × ℕ}
    (h : p ∈ info.fields) : p.1 ∈ info.options :=
  map_fieldsFrom info.options 0 ▸ List.mem_map_of_mem (f := (·.1)) h

/-- Words in range are the same if their fields are. -/
theorem InRange.ext {info : ShaderInfo} {w w' : OptionWord} (hw : info.InRange w)
    (hw' : info.InRange w')
    (h : ∀ p ∈ info.fields, w.field p.2 p.1.bitCount = w'.field p.2 p.1.bitCount) : w = w' := by
  have hbit : ∀ p ∈ info.fields, ∀ j, p.2 ≤ j → j < p.2 + p.1.bitCount →
      w.testBit j = w'.testBit j := by
    intro p hp j hlo hhi
    have hfield := congrArg (·.testBit (j - p.2)) (h p hp)
    simpa [OptionWord.testBit_field, Nat.add_sub_cancel' hlo,
      Nat.sub_lt_left_of_lt_add hlo hhi] using hfield
  refine Nat.eq_of_testBit_eq fun j => Bool.eq_iff_iff.mpr ⟨fun hj => ?_, fun hj => ?_⟩
  · obtain ⟨p, hp, hlo, hhi⟩ := hw.covered j hj
    exact hbit p hp j hlo hhi ▸ hj
  · obtain ⟨p, hp, hlo, hhi⟩ := hw'.covered j hj
    exact (hbit p hp j hlo hhi).symm ▸ hj

theorem inRange_zero (info : ShaderInfo) : info.InRange 0 where
  field_lt p _ := by
    rw [OptionWord.field, Nat.zero_shiftRight, Nat.zero_mod]
    exact p.1.valueCount_pos
  covered j hj := by
    rw [Nat.zero_testBit] at hj
    cases hj

/-! ### Texts that stop -/

/-- Two runs of characters are the same if what is behind them begins with another one. -/
theorem append_inj_of_stops {p : Char → Bool} {a b rest rest' : List Char}
    (ha : ∀ c ∈ a, p c = true) (hb : ∀ c ∈ b, p c = true) (hrest : rest.head?.any p = false)
    (hrest' : rest'.head?.any p = false) (h : a ++ rest = b ++ rest') : a = b ∧ rest = rest' := by
  have hstop : ∀ {t : List Char}, t.head?.any p = false → t.takeWhile p = [] := by
    intro t ht
    cases t with
    | nil => rfl
    | cons c t => exact List.takeWhile_cons_of_neg (Bool.not_eq_true _ ▸ ht)
  have htake := congrArg (List.takeWhile p) h
  rw [List.takeWhile_append_of_pos ha, List.takeWhile_append_of_pos hb, hstop hrest, hstop hrest',
    List.append_nil, List.append_nil] at htake
  subst htake
  exact ⟨rfl, List.append_cancel_left h⟩

/-- What the parts of a name are made of. -/
def isPartChar (c : Char) : Bool := isNameChar c || c == '='

/-- A part of a name begins like an identifier and has no comma. -/
structure IsPart (s : String) : Prop where
  starts : s.toList.head?.any startsName = true
  chars : ∀ c ∈ s.toList, isPartChar c = true

theorem IsPart.ne_nil {s : String} (h : IsPart s) : s.toList ≠ [] := by
  intro hnil
  have hstarts := h.starts
  rw [hnil] at hstarts
  exact Bool.false_ne_true hstarts

/-- The parts of a name behind the first one. -/
def furtherParts (ps : List String) : List Char := ps.flatMap fun s => ',' :: ' ' :: s.toList

theorem stops_furtherParts (ps : List String) :
    (furtherParts ps).head?.any isPartChar = false := by
  cases ps with
  | nil => rfl
  | cons s ps => rfl

theorem toList_foldl_enumerate (ps : List String) : ∀ {s : String}, s.toList ≠ [] →
    (ps.foldl enumerate s).toList = s.toList ++ furtherParts ps := by
  induction ps with
  | nil => exact fun _ => (List.append_nil _).symm
  | cons t ps ih =>
    intro s hs
    have hempty : s.isEmpty = false := by
      rw [String.isEmpty_eq_false_iff]
      rintro rfl
      exact hs rfl
    have henumerate : (enumerate s t).toList = s.toList ++ (',' :: ' ' :: t.toList) := by
      rw [enumerate, hempty, if_neg Bool.false_ne_true, String.toList_append, String.toList_append,
        List.append_assoc]
      rfl
    rw [List.foldl_cons, ih (by rw [henumerate]; simp), henumerate, List.append_assoc]
    rfl

theorem eq_of_furtherParts {ps : List String} : ∀ {qs : List String}, (∀ s ∈ ps, IsPart s) →
    (∀ s ∈ qs, IsPart s) → furtherParts ps = furtherParts qs → ps = qs := by
  induction ps with
  | nil =>
    intro qs _ _ h
    cases qs with
    | nil => rfl
    | cons t qs => cases h
  | cons s ps ih =>
    intro qs hps hqs h
    cases qs with
    | nil => cases h
    | cons t qs =>
      obtain ⟨hs, hps⟩ := List.forall_mem_cons.mp hps
      obtain ⟨ht, hqs⟩ := List.forall_mem_cons.mp hqs
      have htext : s.toList ++ furtherParts ps = t.toList ++ furtherParts qs :=
        (List.cons.inj (List.cons.inj h).2).2
      obtain ⟨hst, hrest⟩ := append_inj_of_stops hs.chars ht.chars (stops_furtherParts ps)
        (stops_furtherParts qs) htext
      rw [String.toList_inj.mp hst, ih hps hqs hrest]

/-- **The parts are read off the name** that lists them. -/
theorem eq_of_foldl_enumerate {ps qs : List String} (hps : ∀ s ∈ ps, IsPart s)
    (hqs : ∀ s ∈ qs, IsPart s) (h : ps.foldl enumerate "" = qs.foldl enumerate "") : ps = qs := by
  rw [← String.toList_inj] at h
  -- nothing is put in front of the first part
  have hfirst : ∀ {s : String} {more : List String}, IsPart s →
      ((s :: more).foldl enumerate "").toList = s.toList ++ furtherParts more :=
    fun hs => toList_foldl_enumerate _ hs.ne_nil
  cases ps with
  | nil =>
    cases qs with
    | nil => rfl
    | cons t qs =>
      obtain ⟨ht, -⟩ := List.forall_mem_cons.mp hqs
      rw [hfirst ht] at h
      exact absurd (List.append_eq_nil_iff.mp h.symm).1 ht.ne_nil
  | cons s ps =>
    obtain ⟨hs, hps⟩ := List.forall_mem_cons.mp hps
    cases qs with
    | nil =>
      rw [hfirst hs] at h
      exact absurd (List.append_eq_nil_iff.mp h).1 hs.ne_nil
    | cons t qs =>
      obtain ⟨ht, hqs⟩ := List.forall_mem_cons.mp hqs
      rw [hfirst hs, hfirst ht] at h
      obtain ⟨hst, hrest⟩ := append_inj_of_stops hs.chars ht.chars (stops_furtherParts ps)
        (stops_furtherParts qs) h
      rw [String.toList_inj.mp hst, eq_of_furtherParts hps hqs hrest]

/-! ### The parts of a name -/

/-- What the name of a variant lists: the options that are not at their first value. -/
def parts (info : ShaderInfo) (w : OptionWord) : List String :=
  info.fields.filterMap fun p =>
    if w.field p.2 p.1.bitCount = 0 then none
    else some (valueText p.1 (w.field p.2 p.1.bitCount))

theorem variantName_eq (info : ShaderInfo) (w : OptionWord) :
    info.variantName w = (info.parts w).foldl enumerate "" := by
  refine congrArg (List.foldl enumerate "") (List.filterMap_congr fun p _ => ?_)
  obtain ⟨o, offset⟩ := p
  dsimp only
  split
  · next hzero => rw [if_pos hzero]
  · next hne => rw [if_neg hne]

section WellNamed

variable {info : ShaderInfo} {w w' : OptionWord} {o : OptionInfo} {v : ℕ}

/-- A value of an option with named values is one of them. -/
theorem exists_value (hflag : ¬ o.isFlag = true) (hv : v < o.valueCount) :
    v < o.namedValues.length ∧
      ∃ value, o.namedValues[v]? = some value ∧ valueText o v = o.name ++ "=" ++ value := by
  rw [OptionInfo.valueCount, if_neg hflag] at hv
  refine ⟨hv, o.namedValues[v], List.getElem?_eq_getElem hv, ?_⟩
  rw [valueText, if_neg hflag, List.getElem?_eq_getElem hv, Option.getD_some]

/-- Behind the name of the option, a part of a name stops, or goes on with an equals sign. -/
theorem exists_toList_valueText (o : OptionInfo) (v : ℕ) : ∃ rest,
    (valueText o v).toList = o.name.toList ++ rest ∧ rest.head?.any isNameChar = false := by
  unfold valueText
  split_ifs
  · exact ⟨[], (List.append_nil _).symm, rfl⟩
  · rw [String.toList_append, String.toList_append, List.append_assoc]
    exact ⟨_, rfl, rfl⟩

theorem WellNamed.isPart (h : info.WellNamed) (ho : o ∈ info.options) (hv : v < o.valueCount) :
    IsPart (valueText o v) := by
  obtain ⟨c, cs, hlist, hc, hall⟩ := Glsl.exists_of_isIdentifier (h.names o ho)
  have hname : ∀ d ∈ o.name.toList, isPartChar d = true := by
    rw [hlist]
    exact fun d hd => Bool.or_eq_true_iff.mpr (.inl (hall d hd))
  refine ⟨?_, ?_⟩
  · obtain ⟨rest, hrest, -⟩ := exists_toList_valueText o v
    rw [hrest, hlist]
    exact hc
  · by_cases hflag : o.isFlag = true
    · rwa [valueText, if_pos hflag]
    · obtain ⟨-, value, hvalue, htext⟩ := exists_value hflag hv
      obtain ⟨c', cs', hlist', -, hall'⟩ :=
        Glsl.exists_of_isIdentifier (h.values o ho value (List.mem_of_getElem? hvalue))
      rw [htext, String.toList_append, String.toList_append, hlist']
      intro d hd
      rcases List.mem_append.mp hd with hd | hd
      · rcases List.mem_append.mp hd with hd | hd
        · exact hname d hd
        · obtain rfl : d = '=' := by simpa using hd
          rfl
      · exact Bool.or_eq_true_iff.mpr (.inl (hall' d hd))

/-- A part of a name says which option has which value. -/
theorem WellNamed.valueText_inj (h : info.WellNamed) {o' : OptionInfo} {v' : ℕ}
    (ho : o ∈ info.options) (ho' : o' ∈ info.options) (hv : v < o.valueCount)
    (hv' : v' < o'.valueCount) (hne : v ≠ 0) (hne' : v' ≠ 0)
    (htext : valueText o v = valueText o' v') : o = o' ∧ v = v' := by
  have hoption : o = o' := by
    obtain ⟨rest, hrest, hstop⟩ := exists_toList_valueText o v
    obtain ⟨rest', hrest', hstop'⟩ := exists_toList_valueText o' v'
    obtain ⟨c, cs, hlist, -, hall⟩ := Glsl.exists_of_isIdentifier (h.names o ho)
    obtain ⟨c', cs', hlist', -, hall'⟩ := Glsl.exists_of_isIdentifier (h.names o' ho')
    have hboth := hrest.symm.trans ((congrArg String.toList htext).trans hrest')
    have hname := (append_inj_of_stops (hlist ▸ hall) (hlist' ▸ hall') hstop hstop' hboth).1
    exact List.inj_on_of_nodup_map h.nodup_names ho ho' (String.toList_inj.mp hname)
  subst hoption
  refine ⟨rfl, ?_⟩
  by_cases hflag : o.isFlag = true
  · -- a flag has one value besides the first one
    rw [OptionInfo.valueCount, if_pos hflag] at hv hv'
    omega
  · obtain ⟨hlength, value, hvalue, hpart⟩ := exists_value hflag hv
    obtain ⟨-, value', hvalue', hpart'⟩ := exists_value hflag hv'
    rw [hpart, hpart', ← String.toList_inj] at htext
    simp only [String.toList_append] at htext
    have hsame := String.toList_inj.mp (List.append_cancel_left htext)
    refine (List.getElem?_inj hlength (h.nodup_values o ho)).mp ?_
    rw [hvalue, hvalue', hsame]

/-- What is listed in the name of a word. -/
theorem mem_parts {s : String} : s ∈ info.parts w ↔ ∃ p ∈ info.fields,
    w.field p.2 p.1.bitCount ≠ 0 ∧ valueText p.1 (w.field p.2 p.1.bitCount) = s := by
  rw [parts, List.mem_filterMap]
  refine exists_congr fun p => and_congr_right fun _ => ?_
  split_ifs with hzero
  · exact iff_of_false nofun fun hne => hne.1 hzero
  · exact ⟨fun hs => ⟨hzero, Option.some.inj hs⟩, fun hs => congrArg some hs.2⟩

theorem isPart_of_mem_parts (h : info.WellNamed) (hw : info.InRange w) :
    ∀ s ∈ info.parts w, IsPart s := by
  intro s hs
  obtain ⟨p, hp, -, rfl⟩ := mem_parts.mp hs
  exact h.isPart (mem_options_of_mem_fields hp) (hw.field_lt p hp)

/-- **An option is listed with the value it has.** -/
theorem mem_parts_iff (h : info.WellNamed) (hw : info.InRange w) {p : OptionInfo × ℕ}
    (hp : p ∈ info.fields) (hv : v < p.1.valueCount) (hne : v ≠ 0) :
    valueText p.1 v ∈ info.parts w ↔ w.field p.2 p.1.bitCount = v := by
  have hnodup : (info.fields.map (·.1)).Nodup :=
    map_fieldsFrom info.options 0 ▸ h.nodup_names.of_map
  rw [mem_parts]
  constructor
  · rintro ⟨p', hp', hne', htext⟩
    obtain ⟨hoption, hvalue⟩ := h.valueText_inj (mem_options_of_mem_fields hp')
      (mem_options_of_mem_fields hp) (hw.field_lt p' hp') hv hne' hne htext
    rwa [← List.inj_on_of_nodup_map hnodup hp' hp hoption]
  · rintro rfl
    exact ⟨p, hp, hne, rfl⟩

/-- Different words in range have different names. -/
theorem eq_of_variantName (h : info.WellNamed) (hw : info.InRange w) (hw' : info.InRange w')
    (hname : info.variantName w = info.variantName w') : w = w' := by
  rw [variantName_eq, variantName_eq] at hname
  have hparts := eq_of_foldl_enumerate (isPart_of_mem_parts h hw) (isPart_of_mem_parts h hw') hname
  refine hw.ext hw' fun p hp => ?_
  by_cases hzero : w.field p.2 p.1.bitCount = 0
  · -- what the other word lists for this option, this one would list as well
    by_contra hdiff
    have hne : w'.field p.2 p.1.bitCount ≠ 0 := fun hz => hdiff (hzero.trans hz.symm)
    have hmem := (mem_parts_iff h hw' hp (hw'.field_lt p hp) hne).mpr rfl
    rw [← hparts] at hmem
    exact hdiff ((mem_parts_iff h hw hp (hw'.field_lt p hp) hne).mp hmem)
  · have hmem := (mem_parts_iff h hw hp (hw.field_lt p hp) hzero).mpr rfl
    rw [hparts] at hmem
    exact ((mem_parts_iff h hw' hp (hw.field_lt p hp) hzero).mp hmem).symm

/-- The word without a set bit has an empty name. -/
theorem variantName_zero (info : ShaderInfo) : info.variantName 0 = "" := by
  have hparts : info.parts 0 = [] := by
    refine List.eq_nil_iff_forall_not_mem.mpr fun s hs => ?_
    obtain ⟨p, -, hne, -⟩ := mem_parts.mp hs
    exact hne (by rw [OptionWord.field, Nat.zero_shiftRight, Nat.zero_mod])
  rw [variantName_eq, hparts]
  rfl

/-- No name is what is shown in place of the empty one. -/
theorem variantName_ne_default (h : info.WellNamed) (hw : info.InRange w) :
    info.variantName w ≠ "<default>" := by
  rw [variantName_eq]
  have hparts := isPart_of_mem_parts h hw
  cases hlist : info.parts w with
  | nil => decide
  | cons s more =>
    rw [hlist] at hparts
    have hs := hparts s List.mem_cons_self
    intro hdefault
    have hchars : s.toList ++ furtherParts more = "<default>".toList :=
      (toList_foldl_enumerate more hs.ne_nil).symm.trans (congrArg String.toList hdefault)
    have hhead : s.toList.head? = some '<' := by
      rw [← List.head?_append_of_ne_nil _ hs.ne_nil, hchars]
      rfl
    have hstarts := hs.starts
    rw [hhead] at hstarts
    exact absurd hstarts (by decide)

/-- **The name of a variant identifies its option word** among all words in range.  The name is
empty for the word without a set bit only, and only that one is shown as the default. -/
theorem variantName_identifies (h : info.WellNamed) :
    (∀ w w', info.InRange w → info.InRange w' → info.variantName w = info.variantName w' →
      w = w') ∧
    ∀ w, info.InRange w → (info.variantName w = "" ↔ w = 0) ∧
      ((if info.variantName w = "" then "<default>" else info.variantName w) = "<default>" ↔
        w = 0) := by
  have hempty : ∀ w, info.InRange w → (info.variantName w = "" ↔ w = 0) := by
    intro w hw
    refine ⟨fun hname => ?_, fun hzero => hzero ▸ info.variantName_zero⟩
    exact eq_of_variantName h hw info.inRange_zero (hname.trans info.variantName_zero.symm)
  refine ⟨fun w w' => eq_of_variantName h, fun w hw => ⟨hempty w hw, ?_⟩⟩
  rw [← hempty w hw]
  split_ifs with hname
  · exact iff_of_true rfl hname
  · exact iff_of_false (variantName_ne_default h hw) hname

end WellNamed

/-! ### Names computed from words -/

/-- The fields of all options begin within the option word, and none takes all of it. -/
def FitsWord (info : ShaderInfo) : Prop :=
  ∀ p ∈ info.fields, p.2 < OptionWord.width ∧ p.1.bitCount < OptionWord.width

instance (info : ShaderInfo) : Decidable info.FitsWord :=
  inferInstanceAs (Decidable (∀ p ∈ info.fields, _))

theorem mapM_eq_ok {α β ε : Type} {f : α → Except ε β} {g : α → β} {l : List α}
    (h : ∀ a ∈ l, f a = .ok (g a)) : l.mapM f = .ok (l.map g) := by
  induction l with
  | nil => rfl
  | cons a rest ih =>
    obtain ⟨ha, hrest⟩ := List.forall_mem_cons.mp h
    rw [List.mapM_cons, ha, ih hrest]
    rfl

/-- **Within the word, no shift goes too far**, and the name is computed in every build. -/
theorem variantNameInWords_eq {info : ShaderInfo} (h : info.FitsWord) (o : Overflow)
    (w : OptionWord) : info.variantNameInWords o w = .ok (info.variantName w) := by
  unfold variantNameInWords
  rw [mapM_eq_ok (g := fun p => if w.field p.2 p.1.bitCount = 0 then none
      else some (valueText p.1 (w.field p.2 p.1.bitCount))) fun p hp => ?_]
  · rw [variantName_eq, parts]
    simp only [bind, Except.bind, pure, Except.pure, List.filterMap_map]
    rfl
  · obtain ⟨hoffset, hbits⟩ := h p hp
    simp only [Overflow.below_of_lt hbits, Overflow.below_of_lt hoffset, bind, Except.bind]
    split
    · next hzero => rw [if_pos hzero]; rfl
    · next hne => rw [if_neg hne]; rfl

theorem exists_bind_pure_ok_iff {α β ε : Type} {x : Except ε α} {g : α → β} :
    (∃ b, (x >>= fun a => pure (g a)) = .ok b) ↔ ∃ a, x = .ok a := by
  cases x <;> simp [bind, Except.bind, pure, Except.pure]

theorem exists_mapM_ok_iff {α β ε : Type} {f : α → Except ε β} {l : List α} :
    (∃ bs, l.mapM f = .ok bs) ↔ ∀ a ∈ l, ∃ b, f a = .ok b := by
  induction l with
  | nil => exact iff_of_true ⟨[], rfl⟩ fun a ha => absurd ha List.not_mem_nil
  | cons a rest ih =>
    rw [List.forall_mem_cons, ← ih, List.mapM_cons]
    cases f a with
    | error e => simp [bind, Except.bind]
    | ok b => cases rest.mapM f <;> simp [bind, Except.bind, pure, Except.pure]

/-- **The name of a variant can be computed** without overflow checks, or if no shift goes too
far. -/
theorem exists_variantNameInWords_iff {info : ShaderInfo} {o : Overflow} {w : OptionWord} :
    (∃ name, info.variantNameInWords o w = .ok name) ↔ o = .wrapped ∨ info.FitsWord := by
  -- the name is computed exactly if every field can be read
  have hfields : (∃ name, info.variantNameInWords o w = .ok name) ↔ ∀ p ∈ info.fields,
      o = .wrapped ∨ p.2 < OptionWord.width ∧ p.1.bitCount < OptionWord.width := by
    unfold variantNameInWords
    rw [exists_bind_pure_ok_iff, exists_mapM_ok_iff]
    refine forall₂_congr fun ⟨option, offset⟩ _ => ?_
    dsimp only
    rw [or_and_left, ← Overflow.exists_below_iff (e := .rightShiftTooFar),
      ← Overflow.exists_below_iff (e := .leftShiftTooFar)]
    cases o.below OptionWord.width .leftShiftTooFar option.bitCount <;>
      cases o.below OptionWord.width .rightShiftTooFar offset <;>
      simp [bind, Except.bind, pure, Except.pure]
  constructor
  · intro h
    cases o with
    | refused => exact .inr fun p hp => (hfields.mp h p hp).resolve_left (by decide)
    | wrapped => exact .inl rfl
  · rintro (rfl | hfits)
    · exact hfields.mpr fun _ _ => .inl rfl
    · exact ⟨_, variantNameInWords_eq hfits o w⟩

/-- A shader with three modes, and with a flag. -/
def figureInfo : ShaderInfo :=
  ⟨7, 0, [⟨"Mode", ["Opaque", "Cutout", "Blend"]⟩, ⟨"Skinned", []⟩], [], [], []⟩

theorem figureInfo_wellNamed : figureInfo.WellNamed where
  names := by decide
  nodup_names := by decide
  values := by decide
  nodup_values := by decide

/-- Both options of the word are at their second value. -/
theorem figureInfo_inRange_five : figureInfo.InRange 5 where
  field_lt := by decide
  covered j hj := by
    have hlt : j < 3 := by
      by_contra hle
      have hpow : (2 : ℕ) ^ 3 ≤ 2 ^ j := Nat.pow_le_pow_right Nat.two_pos (not_lt.mp hle)
      rw [Nat.testBit_lt_two_pow (lt_of_lt_of_le (by decide) hpow)] at hj
      exact Bool.false_ne_true hj
    interval_cases j
    · exact ⟨(⟨"Mode", ["Opaque", "Cutout", "Blend"]⟩, 0), by decide, by decide, by decide⟩
    · exact absurd hj (by decide)
    · exact ⟨(⟨"Skinned", []⟩, 2), by decide, by decide, by decide⟩

/-- A cut-out figure with a skin has a name that no other variant has. -/
theorem figureInfo_five_identified : figureInfo.variantName 5 = "Mode=Cutout, Skinned" ∧
    (∀ w, figureInfo.InRange w → figureInfo.variantName w = "Mode=Cutout, Skinned" → w = 5) ∧
    figureInfo.variantName 5 ≠ "" := by
  have hname : figureInfo.variantName 5 = "Mode=Cutout, Skinned" := by rfl
  obtain ⟨hidentifies, hempty⟩ := variantName_identifies figureInfo_wellNamed
  refine ⟨hname, fun w hw h => ?_, fun h => ?_⟩
  · exact hidentifies w 5 hw figureInfo_inRange_five (h.trans hname.symm)
  · exact absurd ((hempty 5 figureInfo_inRange_five).1.mp h) (by decide)

end ShaderInfo

end ShaderVariants
