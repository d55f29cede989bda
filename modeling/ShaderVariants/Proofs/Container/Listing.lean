import Mathlib
import ShaderVariants.Proofs.Container.Loading
import ShaderVariants.Proofs.Container.Placement

/-!
# What a listing says

The variants of a shader are listed one after the other.  The first of those with the same
programs is listed with their sizes, and the others refer to it.  The tool looks for it among
the variants that it has listed with programs of their own; since these are the first of each
kind, it finds what it would find among all that it has listed.

## Main definitions

* `Firsts` — the first of each kind in a list.
* `ShaderListing` — what is listed of a shader, line by line, with its text.
* `ShaderListing.Truthful` — the listing says what was written.
* `Loaded.Grouped` — what the tool relies on of the variants that it lists.

## Main results

* `Firsts.known`, `Firsts.new` — one more element, and `Firsts.length_eq` — how many kinds.
* `ShaderListing.Truthful.unique` — there is one such listing.
* `variantLines_eq` — what the tool prints, with each line on its own.
* `variantsOf_cons` — what it prints for a shader is the text of a listing.
* `truthful_of_loaded` — **such lines are the truth** if variants share their programs exactly
  where their program keys are the same.
-/

namespace ShaderVariants

/-! ### The first of each kind -/

section Firsts

variable {α γ : Type} [DecidableEq γ] {g : α → γ} {done seen : List α} {a : α}

/-- What was seen is the first of each kind of what is done. -/
structure Firsts (g : α → γ) (done seen : List α) : Prop where
  mem : ∀ a ∈ seen, a ∈ done
  find : ∀ k, seen.find? (g · = k) = done.find? (g · = k)
  nodup : (seen.map g).Nodup

theorem Firsts.nil : Firsts g [] [] :=
  ⟨fun _ h => absurd h List.not_mem_nil, fun _ => rfl, List.nodup_nil⟩

/-- Another one of a kind that was seen changes nothing. -/
theorem Firsts.known (h : Firsts g done seen) {first : α}
    (hfirst : done.find? (g · = g a) = some first) : Firsts g (done ++ [a]) seen where
  mem b hb := List.mem_append_left _ (h.mem b hb)
  find k := by
    rw [h.find k, List.find?_append]
    by_cases hk : g a = k
    · rw [← hk, hfirst]
      rfl
    · rw [List.find?_singleton, decide_eq_false hk, if_neg Bool.false_ne_true, Option.or_none]
  nodup := h.nodup

/-- The first one of its kind is seen. -/
theorem Firsts.new (h : Firsts g done seen) (hnone : done.find? (g · = g a) = none) :
    Firsts g (done ++ [a]) (seen ++ [a]) where
  mem b hb := by
    rcases List.mem_append.mp hb with hb | hb
    · exact List.mem_append_left _ (h.mem b hb)
    · exact List.mem_append_right _ hb
  find k := by rw [List.find?_append, List.find?_append, h.find k]
  nodup := by
    rw [List.map_append, List.map_singleton]
    refine h.nodup.append (List.nodup_singleton _) (List.disjoint_singleton.mpr fun hmem => ?_)
    obtain ⟨b, hb, hkind⟩ := List.mem_map.mp hmem
    exact absurd (decide_eq_true hkind) (List.find?_eq_none.mp hnone b (h.mem b hb))

/-- There are as many first ones as kinds. -/
theorem Firsts.length_eq (h : Firsts g done seen) :
    seen.length = (done.map g).toFinset.card := by
  have hsame : (seen.map g).toFinset = (done.map g).toFinset := by
    refine List.toFinset.ext fun k => ?_
    have hmem : ∀ l : List α, k ∈ l.map g ↔ (l.find? (g · = k)).isSome = true := by
      intro l
      simp [List.mem_map]
    rw [hmem, hmem, h.find k]
  rw [← hsame, List.toFinset_card_of_nodup h.nodup, List.length_map]

/-- In ascending order, the first one of a kind is the least. -/
theorem find?_eq_some_iff_least {rank : α → ℕ} {l : List α}
    (h : l.Pairwise (rank · < rank ·)) {p : α → Bool} : l.find? p = some a ↔
      a ∈ l ∧ p a = true ∧ ∀ b ∈ l, p b = true → rank a ≤ rank b := by
  constructor
  · intro hfind
    obtain ⟨ha, front, back, rfl, hfront⟩ := List.find?_eq_some_iff_append.mp hfind
    refine ⟨List.mem_append_right _ List.mem_cons_self, ha, fun b hb hpb => ?_⟩
    rcases List.mem_append.mp hb with hb | hb
    · have hnot := hfront b hb
      rw [hpb] at hnot
      cases hnot
    · rcases List.mem_cons.mp hb with rfl | hb
      · exact le_rfl
      · exact ((List.pairwise_cons.mp (List.pairwise_append.mp h).2.1).1 b hb).le
  · rintro ⟨ha, hpa, hleast⟩
    cases hfind : l.find? p with
    | none => exact absurd hpa (List.find?_eq_none.mp hfind a ha)
    | some b =>
      obtain ⟨hpb, front, back, rfl, hfront⟩ := List.find?_eq_some_iff_append.mp hfind
      rcases List.mem_append.mp ha with ha | ha
      · have hnot := hfront a ha
        rw [hpa] at hnot
        cases hnot
      · rcases List.mem_cons.mp ha with rfl | ha
        · rfl
        · have hlt := (List.pairwise_cons.mp (List.pairwise_append.mp h).2.1).1 a ha
          have hle := hleast b (List.mem_append_right _ List.mem_cons_self) hpb
          exact absurd hlt (not_lt.mpr hle)

end Firsts

/-! ### Listings -/

/-- What is listed of the programs of a variant. -/
inductive ListedPrograms where
  /-- They are its own, and have these sizes. -/
  | own (vertex fragment : ℕ)
  /-- They are those of a variant that was listed before. -/
  | of (first : VariantKey)
  deriving DecidableEq, Repr

def ListedPrograms.text : ListedPrograms → String
  | .own vertex fragment =>
    "[vertex " ++ toString vertex ++ " B, fragment " ++ toString fragment ++ " B]"
  | .of first => "(programs of " ++ first.text ++ ")"

/-- A line of a listing. -/
structure ListingLine where
  key : VariantKey
  name : String
  programs : ListedPrograms
  deriving DecidableEq, Repr

def ListingLine.text (l : ListingLine) : String :=
  "  " ++ l.key.text ++ "  " ++ l.name ++ "  " ++ l.programs.text ++ "\n"

/-- What is listed of a shader. -/
structure ShaderListing where
  name : String
  lines : List ListingLine
  pairs : ℕ
  deriving DecidableEq, Repr

namespace ShaderListing

/-- The keys of a listing. -/
def keys (l : ShaderListing) : List VariantKey := l.lines.map (·.key)

def text (l : ShaderListing) : String :=
  l.name ++ " (" ++ toString l.keys.length ++ " variants)\n" ++
    String.join (l.lines.map (·.text)) ++
    "  " ++ toString l.pairs ++ " distinct program pair(s)\n"

/-- The listing of a shader says what was written for it, under the names that a build of the
tool computes. -/
structure Truthful (o : Overflow) (shaders : List ShaderEntry) (written : List Variant)
    (t : ShaderEntry) (l : ShaderListing) : Prop where
  name : l.name = t.name
  /-- The keys are those that were written for the shader. -/
  stored : ∀ key, key ∈ l.keys ↔ key ∈ written.map (·.key) ∧ key.sourceHash = t.info.sourceHash
  /-- No key is listed twice. -/
  ascending : l.keys.Pairwise (·.optionWord < ·.optionWord)
  names : ∀ line ∈ l.lines, ∃ name,
    t.info.variantNameInWords o line.key.optionWord = .ok name ∧
      line.name = if name = "" then "<default>" else name
  /-- A line refers to another one exactly if a smaller key has the same program key. -/
  shares : ∀ line ∈ l.lines, (∃ first, line.programs = .of first) ↔ ∃ key ∈ l.keys,
    key.optionWord < line.key.optionWord ∧
      t.info.programKey key.optionWord = t.info.programKey line.key.optionWord
  /-- It refers to the smallest of these keys. -/
  first : ∀ line ∈ l.lines, ∀ first, line.programs = .of first → first ∈ l.keys ∧
    first.optionWord < line.key.optionWord ∧
    t.info.programKey first.optionWord = t.info.programKey line.key.optionWord ∧
    ∀ key ∈ l.keys, t.info.programKey key.optionWord = t.info.programKey line.key.optionWord →
      first.optionWord ≤ key.optionWord
  /-- The sizes are those of the programs that were written first with the program key. -/
  sizes : ∀ line ∈ l.lines, ∀ n m, line.programs = .own n m → ∃ u,
    written.find? (·.programKey shaders = t.info.programKey line.key.optionWord) = some u ∧
      n = u.vertexProgram.length ∧ m = u.fragmentProgram.length
  /-- There are as many programs as program keys. -/
  pairs : l.pairs = (l.keys.map fun key => t.info.programKey key.optionWord).toFinset.card

namespace Truthful

variable {o : Overflow} {shaders : List ShaderEntry} {written : List Variant} {t : ShaderEntry}
  {l l' : ShaderListing} (h : l.Truthful o shaders written t)
  (h' : l'.Truthful o shaders written t)

include h h'

theorem keys_eq : l.keys = l'.keys :=
  eq_of_ascending h.ascending h'.ascending fun key => by rw [h.stored, h'.stored]

/-- There is one line for a key. -/
theorem line_eq {a b : ListingLine} (ha : a ∈ l.lines) (hb : b ∈ l'.lines)
    (hkey : a.key = b.key) : a = b := by
  have hkeys := h.keys_eq h'
  have hname : a.name = b.name := by
    obtain ⟨name, hcomputed, hlisted⟩ := h.names a ha
    obtain ⟨name', hcomputed', hlisted'⟩ := h'.names b hb
    rw [hkey, hcomputed'] at hcomputed
    rw [hlisted, hlisted', Except.ok.inj hcomputed]
  have hshares : (∃ first, a.programs = .of first) ↔ ∃ first, b.programs = .of first := by
    rw [h.shares a ha, h'.shares b hb, hkeys, hkey]
  have hprograms : a.programs = b.programs := by
    cases hpa : a.programs with
    | own n m =>
      cases hpb : b.programs with
      | own n' m' =>
        obtain ⟨u, hu, rfl, rfl⟩ := h.sizes a ha n m hpa
        obtain ⟨u', hu', rfl, rfl⟩ := h'.sizes b hb n' m' hpb
        rw [hkey, hu'] at hu
        rw [Option.some.inj hu]
      | of first =>
        obtain ⟨first', hfirst⟩ := hshares.mpr ⟨first, hpb⟩
        cases hpa.symm.trans hfirst
    | of first =>
      obtain ⟨first', hpb⟩ := hshares.mp ⟨first, hpa⟩
      obtain ⟨hmem, -, hsame, hleast⟩ := h.first a ha first hpa
      obtain ⟨hmem', -, hsame', hleast'⟩ := h'.first b hb first' hpb
      -- each is the smallest of the same keys
      rw [hkey] at hsame hleast
      have hword := le_antisymm (hleast first' (hkeys ▸ hmem') hsame')
        (hleast' first (hkeys ▸ hmem) hsame)
      have hhash := ((h.stored first).mp hmem).2.trans ((h'.stored first').mp hmem').2.symm
      rw [hpb, VariantKey.eq_of_halves hhash hword]
  cases a
  cases b
  cases hkey
  cases hname
  cases hprograms
  rfl

/-- **There is one truth**: what was written determines the listing of a shader. -/
theorem unique : l = l' := by
  have hkeys := h.keys_eq h'
  have hlines : l.lines = l'.lines := by
    have hmap : List.Forall₂ (· = ·) (l.lines.map (·.key)) (l'.lines.map (·.key)) := by
      rw [List.forall₂_eq_eq_eq]
      exact hkeys
    rw [List.forall₂_map_left_iff, List.forall₂_map_right_iff] at hmap
    rw [← List.forall₂_eq_eq_eq]
    refine List.forall₂_iff_get.mpr ⟨hmap.length_eq, fun i hi hi' => ?_⟩
    exact h.line_eq h' (List.get_mem _ _) (List.get_mem _ _) (hmap.get hi hi')
  have hpairs : l.pairs = l'.pairs := by rw [h.pairs, h'.pairs, hkeys]
  have hname : l.name = l'.name := h.name.trans h'.name.symm
  cases l
  cases l'
  cases hname
  cases hlines
  cases hpairs
  rfl

end Truthful

end ShaderListing

/-! ### Lines -/

namespace Loaded

variable (info : ShaderInfo)

/-- The program key of a variant of the shader. -/
def programKey (v : Loaded) : VariantKey := info.programKey v.variant.key.optionWord

/-- What is listed of the programs of a variant among others. -/
def listedPrograms (all : List Loaded) (v : Loaded) : ListedPrograms :=
  match all.find? (·.programKey info = v.programKey info) with
  | some first =>
    if first.variant.key = v.variant.key then
      .own v.variant.vertexProgram.length v.variant.fragmentProgram.length
    else .of first.variant.key
  | none => .own v.variant.vertexProgram.length v.variant.fragmentProgram.length

/-- The line of a variant among others. -/
def line (o : Overflow) (all : List Loaded) (v : Loaded) : ListingLine where
  key := v.variant.key
  name :=
    if (LookupSet.named o info v).2.isEmpty then "<default>" else (LookupSet.named o info v).2
  programs := v.listedPrograms info all

/-- The variants were read in ascending order, and they share their programs exactly if their
program keys are the same. -/
structure Grouped (all : List Loaded) : Prop where
  ascending : all.Pairwise (·.variant.key.optionWord < ·.variant.key.optionWord)
  shares : ∀ a ∈ all, ∀ b ∈ all,
    a.sharesPrograms b = true ↔ a.programKey info = b.programKey info

/-- The listing of a shader whose variants were read. -/
def listing (o : Overflow) (name : String) (all : List Loaded) : ShaderListing where
  name := name
  lines := all.map (·.line info o all)
  pairs := (all.map (·.programKey info)).toFinset.card

end Loaded

section Lines

variable {info : ShaderInfo} {o : Overflow} {all : List Loaded}

theorem text_line_of {v : Loaded} {first : VariantKey}
    (h : v.listedPrograms info all = .of first) : (v.line info o all).text =
      "  " ++ v.variant.key.text ++ "  " ++ (v.line info o all).name ++ "  " ++
        "(programs of " ++ first.text ++ ")\n" := by
  have hclose : ")\n" = ")" ++ "\n" := by rfl
  rw [ListingLine.text, Loaded.line, h, ListedPrograms.text, hclose]
  simp only [String.append_assoc]

theorem text_line_own {v : Loaded} {n m : ℕ} (h : v.listedPrograms info all = .own n m) :
    (v.line info o all).text =
      "  " ++ v.variant.key.text ++ "  " ++ (v.line info o all).name ++ "  " ++
        "[vertex " ++ toString n ++ " B, fragment " ++ toString m ++ " B]\n" := by
  have hclose : " B]\n" = " B]" ++ "\n" := by rfl
  rw [ListingLine.text, Loaded.line, h, ListedPrograms.text, hclose]
  simp only [String.append_assoc]

/-- **The lines of variants**: each refers to the first one in the list with its programs. -/
theorem variantLines_eq (h : Loaded.Grouped info all) : ∀ (rest done seen : List Loaded),
    all = done ++ rest → Firsts (Loaded.programKey info) done seen →
    (LookupSet.variantLines seen (rest.map (LookupSet.named o info))).1 =
        rest.map (fun v => (v.line info o all).text) ∧
      Firsts (Loaded.programKey info) all
        (LookupSet.variantLines seen (rest.map (LookupSet.named o info))).2 := by
  intro rest
  induction rest with
  | nil =>
    intro done seen hsplit hseen
    rw [List.append_nil] at hsplit
    exact ⟨rfl, hsplit ▸ hseen⟩
  | cons v rest ih =>
    intro done seen hsplit hseen
    have hsplit' : all = (done ++ [v]) ++ rest := by rw [hsplit, List.append_assoc]; rfl
    have hv : v ∈ all := hsplit ▸ List.mem_append_right _ List.mem_cons_self
    -- among those seen, the tool finds the first one with the programs of this one
    have hfind : seen.find? (·.sharesPrograms v) =
        done.find? (·.programKey info = v.programKey info) := by
      rw [← hseen.find]
      refine List.find?_congr fun a ha => Bool.eq_iff_iff.mpr ?_
      rw [decide_eq_true_eq]
      exact h.shares a (hsplit ▸ List.mem_append_left _ (hseen.mem a ha)) v hv
    have hself : (v :: rest).find? (·.programKey info = v.programKey info) = some v :=
      List.find?_cons_of_pos (by rw [decide_eq_true_eq])
    have hall : all.find? (·.programKey info = v.programKey info) =
        (done.find? (·.programKey info = v.programKey info)).or (some v) := by
      rw [hsplit, List.find?_append, hself]
    rw [List.map_cons, List.map_cons, LookupSet.named, LookupSet.variantLines, hfind]
    cases hdone : done.find? (·.programKey info = v.programKey info) with
    | some first =>
      rw [hdone, Option.some_or] at hall
      have hne : first.variant.key ≠ v.variant.key := by
        have hascending := h.ascending
        rw [hsplit] at hascending
        have hlt := (List.pairwise_append.mp hascending).2.2 first
          (List.mem_of_find?_eq_some hdone) v List.mem_cons_self
        exact fun heq => hlt.ne (congrArg VariantKey.optionWord heq)
      have hprograms : v.listedPrograms info all = .of first.variant.key := by
        rw [Loaded.listedPrograms, hall]
        exact if_neg hne
      obtain ⟨hlines, hrest⟩ := ih (done ++ [v]) seen hsplit' (hseen.known hdone)
      refine ⟨?_, hrest⟩
      rw [← hlines, text_line_of hprograms]
      rfl
    | none =>
      rw [hdone, Option.none_or] at hall
      have hprograms : v.listedPrograms info all =
          .own v.variant.vertexProgram.length v.variant.fragmentProgram.length := by
        rw [Loaded.listedPrograms, hall]
        exact if_pos rfl
      obtain ⟨hlines, hrest⟩ := ih (done ++ [v]) (seen ++ [v]) hsplit' (hseen.new hdone)
      refine ⟨?_, hrest⟩
      rw [← hlines, text_line_own hprograms]
      rfl

/-- **What is printed for a shader** is the text of the listing of its variants. -/
theorem variantsOf_cons {s s' s'' : LookupSet} {name : String}
    {rest : List String} {later : String} (h : Loaded.Grouped info all)
    (hinfo : s.infoNamed? name = some info)
    (hget : s.getNamed o info (s.own.keysOf info.sourceHash) =
      (s', .ok (all.map (LookupSet.named o info))))
    (hall : all.map (·.variant.key) = s.own.keysOf info.sourceHash)
    (hrest : s'.variantsOf o rest = (s'', .ok later)) : s.variantsOf o (name :: rest) =
      (s'', .ok ((Loaded.listing info o name all).text ++ later)) := by
  obtain ⟨hlines, hseen⟩ := variantLines_eq h all [] [] rfl .nil
  have hcount : (Loaded.listing info o name all).keys.length =
      (s.own.keysOf info.sourceHash).length := by
    rw [← hall, ShaderListing.keys, Loaded.listing, List.length_map, List.length_map,
      List.length_map]
  have htext : (Loaded.listing info o name all).text =
      name ++ " (" ++ toString (s.own.keysOf info.sourceHash).length ++ " variants)\n" ++
        String.join (LookupSet.variantLines [] (all.map (LookupSet.named o info))).1 ++
        "  " ++ toString (LookupSet.variantLines [] (all.map (LookupSet.named o info))).2.length ++
        " distinct program pair(s)\n" := by
    rw [ShaderListing.text, hcount, hlines, hseen.length_eq, Loaded.listing, List.map_map]
    rfl
  rw [LookupSet.variantsOf, hinfo]
  dsimp only
  rw [hget]
  dsimp only
  rw [hrest]
  dsimp only
  rw [htext]

/-- A variant is listed with the first one that has its program key, which is the least. -/
theorem exists_first (h : Loaded.Grouped info all) {v : Loaded} (hv : v ∈ all) :
    ∃ first ∈ all, first.programKey info = v.programKey info ∧
      (∀ u ∈ all, u.programKey info = v.programKey info →
        first.variant.key.optionWord ≤ u.variant.key.optionWord) ∧
      v.listedPrograms info all = if first.variant.key = v.variant.key then
          .own v.variant.vertexProgram.length v.variant.fragmentProgram.length
        else .of first.variant.key := by
  cases hfind : all.find? (·.programKey info = v.programKey info) with
  | none => exact absurd (decide_eq_true rfl) (List.find?_eq_none.mp hfind v hv)
  | some first =>
    obtain ⟨hfirst, hsame, hleast⟩ := (find?_eq_some_iff_least h.ascending).mp hfind
    refine ⟨first, hfirst, of_decide_eq_true hsame, fun u hu hkey => ?_, ?_⟩
    · exact hleast u hu (decide_eq_true hkey)
    · rw [Loaded.listedPrograms, hfind]

/-- **A listing says what was written**, if the variants are those of the shader, and the programs
of each are those that were written first. -/
theorem truthful_of_loaded {shaders : List ShaderEntry} {written : List Variant} {t : ShaderEntry}
    (h : Loaded.Grouped t.info all)
    (hnames : ∀ v ∈ all, ∃ name,
      t.info.variantNameInWords o v.variant.key.optionWord = .ok name)
    (hstored : ∀ key, key ∈ all.map (·.variant.key) ↔
      key ∈ written.map (·.key) ∧ key.sourceHash = t.info.sourceHash)
    (hsizes : ∀ v ∈ all, ∃ u,
      written.find? (·.programKey shaders = v.programKey t.info) = some u ∧
        v.variant.vertexProgram = u.vertexProgram ∧
        v.variant.fragmentProgram = u.fragmentProgram) :
    (Loaded.listing t.info o t.name all).Truthful o shaders written t := by
  have hkeys : (Loaded.listing t.info o t.name all).keys = all.map (·.variant.key) :=
    List.map_map
  have hhash : ∀ v ∈ all, v.variant.key.sourceHash = t.info.sourceHash := fun v hv =>
    ((hstored _).mp (List.mem_map_of_mem hv)).2
  -- with one checksum, keys are told apart by their words
  have hlt : ∀ u ∈ all, ∀ v ∈ all, u.variant.key.optionWord ≤ v.variant.key.optionWord →
      u.variant.key ≠ v.variant.key → u.variant.key.optionWord < v.variant.key.optionWord := by
    intro u hu v hv hle hne
    refine lt_of_le_of_ne hle fun heq => hne ?_
    exact VariantKey.eq_of_halves ((hhash u hu).trans (hhash v hv).symm) heq
  refine ⟨rfl, ?_, ?_, ?_, ?_, ?_, ?_, ?_⟩
  · rw [hkeys]
    exact hstored
  · rw [hkeys]
    exact List.pairwise_map.mpr h.ascending
  · intro line hline
    obtain ⟨v, hv, rfl⟩ := List.mem_map.mp hline
    obtain ⟨name, hname⟩ := hnames v hv
    refine ⟨name, hname, ?_⟩
    simp only [Loaded.line, LookupSet.named, hname, Except.toOption, Option.getD_some,
      String.isEmpty_iff]
  · intro line hline
    obtain ⟨v, hv, rfl⟩ := List.mem_map.mp hline
    obtain ⟨first, hfirst, hsame, hleast, hprograms⟩ := exists_first h hv
    rw [hkeys]
    change (∃ key, v.listedPrograms t.info all = _) ↔ _
    rw [hprograms]
    constructor
    · rintro ⟨key, hof⟩
      split_ifs at hof with heq
      exact ⟨_, List.mem_map_of_mem hfirst, hlt first hfirst v hv (hleast v hv rfl) heq, hsame⟩
    · rintro ⟨key, hkey, hless, hkeySame⟩
      obtain ⟨u, hu, rfl⟩ := List.mem_map.mp hkey
      have hne : first.variant.key ≠ v.variant.key := by
        intro heq
        have hle := hleast u hu hkeySame
        rw [heq] at hle
        exact absurd hless (not_lt.mpr hle)
      exact ⟨_, if_neg hne⟩
  · intro line hline key hof
    obtain ⟨v, hv, rfl⟩ := List.mem_map.mp hline
    obtain ⟨first, hfirst, hsame, hleast, hprograms⟩ := exists_first h hv
    rw [hkeys]
    change v.listedPrograms t.info all = _ at hof
    rw [hprograms] at hof
    split_ifs at hof with heq
    obtain rfl := ListedPrograms.of.inj hof
    refine ⟨List.mem_map_of_mem hfirst, hlt first hfirst v hv (hleast v hv rfl) heq, hsame, ?_⟩
    intro key hkey hkeySame
    obtain ⟨u, hu, rfl⟩ := List.mem_map.mp hkey
    exact hleast u hu hkeySame
  · intro line hline n m hown
    obtain ⟨v, hv, rfl⟩ := List.mem_map.mp hline
    obtain ⟨first, hfirst, hsame, hleast, hprograms⟩ := exists_first h hv
    change v.listedPrograms t.info all = _ at hown
    rw [hprograms] at hown
    split_ifs at hown with heq
    obtain ⟨rfl, rfl⟩ := ListedPrograms.own.inj hown
    obtain ⟨u, hu, hvertex, hfragment⟩ := hsizes v hv
    exact ⟨u, hu, by rw [hvertex], by rw [hfragment]⟩
  · rw [hkeys, List.map_map]
    rfl

end Lines

end ShaderVariants
