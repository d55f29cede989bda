import Mathlib
import ShaderVariants.Binding
import ShaderVariants.Proofs.Layout.Offsets

/-!
# Places of structure members

The members of a structure are placed in one pass: each is moved up to the next multiple of its
alignment, and the next one starts where it ends.  So members keep their order and do not share
a byte, and no member could be placed earlier behind the one in front of it.  In the end the size
is moved up to the largest alignment, which is a multiple of all others.

All of this is counted in words of 32 bits.  There is only one structure that holds members in
this way, so a structure that would have 4 GiB or more cannot be had at all.

## Main definitions

* `StructureType.LaysOut` — a structure holds members without overlaps and without needless gaps.
* `StructureType.extent` — the bytes of the structure, however many.

## Main results

* `StructureType.offset_of_place` — a member is placed behind the one in front of it.
* `StructureType.pairwise_place` — members do not share a byte.
* `NumericType.alignment_dvd` — the larger of two alignments is a multiple of the smaller one.
* `StructureType.laysOut_place` — the structure, counted without a limit.
* `StructureType.inWords_eq` — below 4 GiB it is the same in words.
* `StructureType.laysOut_inWords_iff` — **structures are aligned, tight and free of overlaps
  exactly if they have less than 4 GiB.**
-/

namespace ShaderVariants

/-! ### Sizes and alignments -/

namespace NumericType

variable {t u : NumericType}

theorem alignment_of_isValid (h : t.isValid = true) :
    t.alignment = 4 ∨ t.alignment = 8 ∨ t.alignment = 16 := by
  rw [alignment_eq_packedAlignment h, packedAlignment]
  split_ifs <;> simp

theorem alignment_pos (h : t.isValid = true) : 0 < t.alignment := by
  rcases alignment_of_isValid h with h | h | h <;> omega

/-- The larger of two alignments is a multiple of the smaller one. -/
theorem alignment_dvd (ht : t.isValid = true) (hu : u.isValid = true)
    (hle : t.alignment ≤ u.alignment) : t.alignment ∣ u.alignment := by
  rcases alignment_of_isValid ht with ht | ht | ht <;>
    rcases alignment_of_isValid hu with hu | hu | hu <;> rw [ht, hu] at hle ⊢ <;> omega

theorem columns_of_isValid (h : t.isValid = true) :
    1 ≤ t.columns.toNat ∧ t.columns.toNat ≤ 4 := by
  simp only [isValid, Bool.and_eq_true, decide_eq_true_eq, UInt8.le_iff_toNat_le] at h
  exact h.1.1.2

theorem size_pos (h : t.isValid = true) : 0 < t.size :=
  Nat.mul_pos (columns_of_isValid h).1 (alignment_pos h)

end NumericType

namespace StructureType

/-! ### Members -/

theorem endOfPlaced_cons (start : ℕ) (m : StructureMember) (members : List StructureMember) :
    endOfPlaced start (m :: members) = endOfPlaced (m.offset + m.size) members := by
  cases members with
  | nil => rfl
  | cons n rest => rw [endOfPlaced, List.getLast?_cons_cons]; rfl

theorem place_sizes : ∀ (members : List (String × NumericType)) (start : ℕ),
    ∀ m ∈ place start members, m.size = m.type.size := by
  intro members
  induction members with
  | nil => exact fun _ _ h => nomatch h
  | cons member rest ih => exact fun start => List.forall_mem_cons.mpr ⟨rfl, ih _⟩

/-- **A member is placed behind the one in front of it**, at the next multiple of its
alignment. -/
theorem offset_of_place {m : StructureMember} {after : List StructureMember} :
    ∀ (members : List (String × NumericType)) (start : ℕ) (before : List StructureMember),
    place start members = before ++ m :: after →
      m.offset = alignUp (endOfPlaced start before) m.type.alignment := by
  intro members
  induction members with
  | nil => exact fun start before h => absurd h (by simp [place])
  | cons member rest ih =>
    intro start before h
    cases before with
    | nil => obtain ⟨rfl, -⟩ := List.cons.inj h; rfl
    | cons first before =>
      obtain ⟨rfl, hrest⟩ := List.cons.inj h
      rw [endOfPlaced_cons]
      exact ih _ before hrest

variable {members : List (String × NumericType)}

theorem le_offset_of_mem_place (h : ∀ m ∈ members, 0 < m.2.alignment) :
    ∀ start, ∀ m ∈ place start members, start ≤ m.offset := by
  induction members with
  | nil => exact fun _ _ h => nomatch h
  | cons member rest ih =>
    obtain ⟨hmember, hrest⟩ := List.forall_mem_cons.mp h
    have hle := le_alignUp hmember
    refine fun start => List.forall_mem_cons.mpr ⟨hle start, fun m hm => ?_⟩
    have hm := ih hrest _ m hm
    have := hle start
    omega

/-- **Members do not share a byte.** -/
theorem pairwise_place (h : ∀ m ∈ members, 0 < m.2.alignment) :
    ∀ start, (place start members).Pairwise fun m m' => m.offset + m.size ≤ m'.offset := by
  induction members with
  | nil => exact fun _ => .nil
  | cons member rest ih =>
    have hrest := (List.forall_mem_cons.mp h).2
    exact fun start => .cons (le_offset_of_mem_place hrest _) (ih hrest _)

/-! ### The largest alignment -/

theorem max?_alignments (members : List (String × NumericType)) :
    (1 :: members.map (·.2.alignment)).max? = some (maxAlignment members) := by
  rw [List.max?_cons', List.foldl_map, maxAlignment]

theorem alignment_le_maxAlignment {m : String × NumericType} (hm : m ∈ members) :
    m.2.alignment ≤ maxAlignment members :=
  (List.max?_eq_some_iff.mp (max?_alignments members)).2 _
    (List.mem_cons_of_mem _ (List.mem_map_of_mem hm))

theorem maxAlignment_pos (members : List (String × NumericType)) : 0 < maxAlignment members :=
  (List.max?_eq_some_iff.mp (max?_alignments members)).2 1 List.mem_cons_self

/-- The alignment of the whole is that of a member, if there is any. -/
theorem exists_alignment_eq (h : ∀ m ∈ members, 0 < m.2.alignment) (hne : members ≠ []) :
    ∃ m ∈ members, m.2.alignment = maxAlignment members := by
  rcases List.mem_cons.mp (List.max?_eq_some_iff.mp (max?_alignments members)).1 with hone | hmem
  · -- an alignment that is not above one is one
    obtain ⟨m, hm⟩ := List.exists_mem_of_ne_nil _ hne
    have hle := alignment_le_maxAlignment hm
    have hpos := h m hm
    exact ⟨m, hm, by omega⟩
  · exact List.mem_map.mp hmem

/-- The alignment of the whole is a multiple of the alignment of each member. -/
theorem alignment_dvd_maxAlignment (h : ∀ m ∈ members, m.2.isValid = true)
    {m : String × NumericType} (hm : m ∈ members) : m.2.alignment ∣ maxAlignment members := by
  obtain ⟨largest, hlargest, heq⟩ := exists_alignment_eq
    (fun m hm => NumericType.alignment_pos (h m hm)) (List.ne_nil_of_mem hm)
  rw [← heq]
  refine NumericType.alignment_dvd (h m hm) (h largest hlargest) ?_
  exact heq ▸ alignment_le_maxAlignment hm

/-! ### The whole structure -/

/-- The structure holds the given members, in their order, each as early as its alignment allows
behind the one in front of it. -/
structure LaysOut (s : StructureType) (members : List (String × NumericType)) : Prop where
  names_types : s.members.map (fun m => (m.name, m.type)) = members
  size : ∀ m ∈ s.members, m.size = m.type.size
  offset : ∀ before m after, s.members = before ++ m :: after →
    IsLeast {o | endOfPlaced 0 before ≤ o ∧ m.type.alignment ∣ o} m.offset
  /-- A member has bytes, and they end before those of the members behind it begin. -/
  nonempty : ∀ m ∈ s.members, 0 < m.size
  disjoint : s.members.Pairwise fun m m' => m.offset + m.size ≤ m'.offset
  /-- The largest alignment decides about the size of the whole. -/
  totalSize : ∀ a, IsGreatest {b | ∃ m ∈ s.members, m.type.alignment = b} a →
    IsLeast {n | endOfPlaced 0 s.members ≤ n ∧ a ∣ n} s.totalSize
  totalSize_nil : s.members = [] → s.totalSize = 0
  dvd_totalSize : ∀ m ∈ s.members, m.type.alignment ∣ s.totalSize

/-- The bytes that the members take, counted without a limit. -/
def extent (members : List (String × NumericType)) : ℕ :=
  alignUp (endOfPlaced 0 (place 0 members)) (maxAlignment members)

/-- A greatest alignment of the placed members is the alignment of the whole. -/
theorem eq_maxAlignment (h : ∀ m ∈ members, 0 < m.2.alignment) {a : ℕ}
    (ha : IsGreatest {b | ∃ m ∈ place 0 members, m.type.alignment = b} a) :
    a = maxAlignment members := by
  obtain ⟨⟨m, hm, rfl⟩, hupper⟩ := ha
  have htypes := place_types members 0
  have hmem : (m.name, m.type) ∈ members := htypes ▸ List.mem_map_of_mem hm
  refine le_antisymm (alignment_le_maxAlignment hmem) ?_
  obtain ⟨largest, hlargest, heq⟩ := exists_alignment_eq h (List.ne_nil_of_mem hmem)
  rw [← heq]
  rw [← htypes] at hlargest
  obtain ⟨placed, hplaced, rfl⟩ := List.mem_map.mp hlargest
  exact hupper ⟨placed, hplaced, rfl⟩

/-- **Counted without a limit**, structures are aligned, tight and free of overlaps, if their
members are numbers that a program can hold. -/
theorem laysOut_place (h : ∀ m ∈ members, m.2.isValid = true) :
    LaysOut { members := place 0 members, totalSize := extent members } members := by
  have hpos : ∀ m ∈ members, 0 < m.2.alignment := fun m hm => NumericType.alignment_pos (h m hm)
  have htypes := place_types members 0
  have hmem : ∀ m ∈ place 0 members, (m.name, m.type) ∈ members := fun m hm =>
    htypes ▸ List.mem_map_of_mem hm
  constructor
  case names_types => exact htypes
  case size => exact place_sizes members 0
  case offset =>
    intro before m after (heq : place 0 members = _)
    have hm : m ∈ place 0 members := heq ▸ List.mem_append_right _ List.mem_cons_self
    rw [offset_of_place members 0 before heq]
    exact isLeast_alignUp (hpos _ (hmem m hm)) _
  case nonempty =>
    intro m hm
    rw [place_sizes members 0 m hm]
    exact NumericType.size_pos (h _ (hmem m hm))
  case disjoint => exact pairwise_place hpos 0
  case totalSize =>
    intro a ha
    rw [eq_maxAlignment hpos ha]
    exact isLeast_alignUp (maxAlignment_pos members) _
  case totalSize_nil =>
    intro (hnil : place 0 members = [])
    have : members = [] := by rw [← htypes, hnil, List.map_nil]
    rw [this]
    rfl
  case dvd_totalSize =>
    intro m hm
    have hdvd := alignment_dvd_maxAlignment h (hmem m hm)
    exact hdvd.trans (dvd_alignUp _ _)

/-! ### There is one structure -/

/-- Members are where they are placed if each begins as early as it can. -/
theorem eq_place : ∀ (placed : List StructureMember) (start : ℕ),
    (∀ m ∈ placed, 0 < m.type.alignment) → (∀ m ∈ placed, m.size = m.type.size) →
    (∀ before m after, placed = before ++ m :: after →
      IsLeast {o | endOfPlaced start before ≤ o ∧ m.type.alignment ∣ o} m.offset) →
    placed = place start (placed.map fun m => (m.name, m.type)) := by
  intro placed
  induction placed with
  | nil => exact fun _ _ _ _ => rfl
  | cons m rest ih =>
    intro start hpos hsize hoffset
    have hfirst : m.offset = alignUp start m.type.alignment :=
      (hoffset [] m rest rfl).unique (isLeast_alignUp (hpos m List.mem_cons_self) start)
    have hrest := ih (m.offset + m.size) (fun n hn => hpos n (List.mem_cons_of_mem m hn))
      (fun n hn => hsize n (List.mem_cons_of_mem m hn)) fun before n after heq => by
        have := hoffset (m :: before) n after (congrArg (m :: ·) heq)
        rwa [endOfPlaced_cons] at this
    rw [List.map_cons, place, ← hfirst, ← hsize m List.mem_cons_self, ← hrest]

/-- **There is one structure** that holds the members. -/
theorem LaysOut.totalSize_eq {s : StructureType} (hs : s.LaysOut members)
    (h : ∀ m ∈ members, m.2.isValid = true) : s.totalSize = extent members := by
  have hpos : ∀ m ∈ s.members, 0 < m.type.alignment := by
    intro m hm
    refine NumericType.alignment_pos (h (m.name, m.type) ?_)
    rw [← hs.names_types]
    exact List.mem_map_of_mem hm
  have hplace := eq_place s.members 0 hpos hs.size hs.offset
  rw [hs.names_types] at hplace
  have hexact := laysOut_place h
  rcases eq_or_ne members [] with rfl | hne
  · exact (hs.totalSize_nil hplace).trans (hexact.totalSize_nil rfl).symm
  · -- the largest alignment is that of some member, and decides about both sizes
    obtain ⟨m, hm, heq⟩ := exists_alignment_eq
      (fun m hm => NumericType.alignment_pos (h m hm)) hne
    have hgreatest : IsGreatest {b | ∃ m ∈ s.members, m.type.alignment = b}
        (maxAlignment members) := by
      rw [← hs.names_types] at hm
      obtain ⟨m', hm', rfl⟩ := List.mem_map.mp hm
      refine ⟨⟨m', hm', heq⟩, ?_⟩
      rintro b ⟨n, hn, rfl⟩
      refine alignment_le_maxAlignment (m := (n.name, n.type)) ?_
      rw [← hs.names_types]
      exact List.mem_map_of_mem hn
    have hleast := hs.totalSize _ hgreatest
    rw [hplace] at hgreatest hleast
    exact hleast.unique (hexact.totalSize _ hgreatest)

/-! ### Words -/

theorem le_endOfPlaced_place (h : ∀ m ∈ members, 0 < m.2.alignment) :
    ∀ start, start ≤ endOfPlaced start (place start members) := by
  induction members with
  | nil => exact fun _ => le_rfl
  | cons member rest ih =>
    obtain ⟨hmember, hrest⟩ := List.forall_mem_cons.mp h
    intro start
    have hoffset := le_alignUp hmember start
    have hend := ih hrest (alignUp start member.2.alignment + member.2.size)
    rw [place, endOfPlaced_cons]
    dsimp only
    omega

/-- Members that end below 4 GiB are placed in words. -/
theorem placeInWords_eq (o : Overflow) (h : ∀ m ∈ members, 0 < m.2.alignment) :
    ∀ start, endOfPlaced start (place start members) < Word.limit →
    placeInWords o start members =
      .ok (place start members, endOfPlaced start (place start members)) := by
  induction members with
  | nil => exact fun _ _ => rfl
  | cons member rest ih =>
    obtain ⟨hmember, hrest⟩ := List.forall_mem_cons.mp h
    obtain ⟨name, type⟩ := member
    intro start hlimit
    rw [place, endOfPlaced_cons] at hlimit ⊢
    dsimp only at hlimit hmember ⊢
    -- what was counted before the end is not above it
    have hnext := (le_endOfPlaced_place hrest _).trans_lt hlimit
    have hoffset : alignUp start type.alignment < Word.limit := by omega
    rw [placeInWords, if_neg hmember.ne', Overflow.below_of_lt hoffset]
    simp only [bind, Except.bind, Overflow.below_of_lt hnext, ih hrest _ hlimit]
    rfl

/-- There is a structure exactly if all members have rows. -/
theorem ofMembers?_eq_some_iff {s : StructureType} : ofMembers? members = some s ↔
    (∀ m ∈ members, 0 < m.2.alignment) ∧
      { members := place 0 members, totalSize := extent members } = s := by
  rw [ofMembers?]
  split
  · next hany =>
    obtain ⟨m, hm, hzero⟩ := List.any_eq_true.mp hany
    exact iff_of_false nofun fun hpos => (hpos.1 m hm).ne' (beq_iff_eq.mp hzero)
  · next hany =>
    have hpos : ∀ m ∈ members, 0 < m.2.alignment := fun m hm =>
      Nat.pos_of_ne_zero fun hzero => hany (List.any_eq_true.mpr ⟨m, hm, beq_iff_eq.mpr hzero⟩)
    exact ⟨fun h => ⟨hpos, Option.some.inj h⟩, fun h => congrArg some h.2⟩

/-- **Below 4 GiB**, the structure in words is the one that is counted without a limit. -/
theorem inWords_eq (o : Overflow) {s : StructureType} (h : ofMembers? members = some s)
    (hsize : s.totalSize < Word.limit) : inWords o members = .ok s := by
  obtain ⟨hpos, rfl⟩ := ofMembers?_eq_some_iff.mp h
  -- the last member ends at the end of the structure or before it
  have hend := (le_alignUp (maxAlignment_pos members) _).trans_lt hsize
  unfold extent at hsize
  rw [inWords, placeInWords_eq o hpos 0 hend]
  simp only [bind, Except.bind, Overflow.below_of_lt hsize]
  rfl

/-- The size of a structure in words is a word. -/
theorem totalSize_lt_of_inWords {o : Overflow} {s : StructureType}
    (h : inWords o members = .ok s) : s.totalSize < Word.limit := by
  unfold inWords at h
  cases hplaced : placeInWords o 0 members with
  | error e =>
    rw [hplaced] at h
    cases h
  | ok p =>
    rw [hplaced] at h
    simp only [bind, Except.bind] at h
    split at h
    · cases h
    · next n hn =>
      obtain rfl := Except.ok.inj h
      exact Overflow.lt_of_below (by decide) hn

/-- **Structures are aligned, tight and free of overlaps exactly if they have less than 4 GiB.**
This holds with and without overflow checks, if their members are numbers that a program can
hold. -/
theorem laysOut_inWords_iff (o : Overflow) (h : ∀ m ∈ members, m.2.isValid = true) :
    (∃ s, inWords o members = .ok s ∧ s.LaysOut members) ↔ extent members < Word.limit := by
  constructor
  · rintro ⟨s, hs, hlayout⟩
    rw [← hlayout.totalSize_eq h]
    exact totalSize_lt_of_inWords hs
  · intro hextent
    have hpos : ∀ m ∈ members, 0 < m.2.alignment := fun m hm => NumericType.alignment_pos (h m hm)
    have hexact := ofMembers?_eq_some_iff.mpr ⟨hpos, rfl⟩
    exact ⟨_, inWords_eq o hexact hextent, laysOut_place h⟩

/-- A number, two vectors and a matrix leave twelve bytes out in front of the vector of three
components, which has the alignment of four. -/
theorem laysOut_transform :
    (∀ m ∈ [("intensity", NumericType.single .float), ("direction", .vector .float 3),
        ("uv", .vector .float 2), ("world", .matrix 4 4)], m.2.isValid = true) ∧
      ∃ s, inWords .refused [("intensity", .single .float), ("direction", .vector .float 3),
          ("uv", .vector .float 2), ("world", .matrix 4 4)] = .ok s ∧
        s.LaysOut [("intensity", .single .float), ("direction", .vector .float 3),
          ("uv", .vector .float 2), ("world", .matrix 4 4)] ∧
        s.members.map (·.offset) = [0, 16, 32, 48] ∧ s.totalSize = 112 := by
  have hvalid : ∀ m ∈ [("intensity", NumericType.single .float), ("direction", .vector .float 3),
      ("uv", .vector .float 2), ("world", .matrix 4 4)], m.2.isValid = true := by decide
  obtain ⟨s, hs, hlayout⟩ := (laysOut_inWords_iff .refused hvalid).mpr (by decide)
  refine ⟨hvalid, s, hs, hlayout, ?_⟩
  rw [← Except.ok.inj hs]
  exact ⟨rfl, rfl⟩

/-! ### Too many members -/

theorem alignUp_eq_of_dvd {value alignment : ℕ} (h : 0 < alignment) (hdvd : alignment ∣ value) :
    alignUp value alignment = value :=
  le_antisymm (alignUp_le h le_rfl hdvd) (le_alignUp h value)

/-- Members of one type leave nothing out between them if its size is a multiple of its
alignment. -/
theorem endOfPlaced_replicate {name : String} {t : NumericType} (hpos : 0 < t.alignment)
    (hdvd : t.alignment ∣ t.size) : ∀ (n start : ℕ), t.alignment ∣ start →
    endOfPlaced start (place start (List.replicate n (name, t))) = start + n * t.size := by
  intro n
  induction n with
  | zero => exact fun start _ => by rw [Nat.zero_mul]; rfl
  | succ n ih =>
    intro start hstart
    rw [List.replicate_succ, place, endOfPlaced_cons]
    dsimp only
    rw [alignUp_eq_of_dvd hpos hstart, ih _ (Nat.dvd_add hstart hdvd), Nat.succ_mul]
    omega

/-- The transformations of 67108864 objects. -/
def transforms : List (String × NumericType) := List.replicate (2 ^ 26) ("world", .matrix 4 4)

/-- Their structure would have 4 GiB: no build lays it out. -/
theorem transforms_not_laysOut : (∀ m ∈ transforms, m.2.isValid = true) ∧
    ∀ o, ¬ ∃ s, inWords o transforms = .ok s ∧ s.LaysOut transforms := by
  have hvalid : ∀ m ∈ transforms, m.2.isValid = true := by
    intro m hm
    rw [(List.mem_replicate.mp hm).2]
    rfl
  refine ⟨hvalid, ?_⟩
  rintro o ⟨s, hs, hlayout⟩
  have hsize := totalSize_lt_of_inWords hs
  have hend : endOfPlaced 0 (place 0 transforms) = 0 + 2 ^ 26 * 64 :=
    endOfPlaced_replicate (t := .matrix 4 4) (by decide) (by decide) (2 ^ 26) 0 (Nat.dvd_zero _)
  have hextent := le_alignUp (maxAlignment_pos transforms) (endOfPlaced 0 (place 0 transforms))
  rw [hlayout.totalSize_eq hvalid, extent] at hsize
  rw [hend] at hextent hsize
  exact absurd (hextent.trans_lt hsize) (by decide)

end StructureType

end ShaderVariants
