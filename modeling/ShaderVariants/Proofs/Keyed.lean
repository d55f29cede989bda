import Mathlib

/-!
# Lists with distinct keys

Declarations, options, shaders and index entries are kept in lists and looked up by a
key.  If the keys are distinct, what is found under a key is what was put there.

## Main results

* `find?_key_iff`, `lookup_of_mem` — a search by key finds exactly the entry with the key.
* `eq_of_ascending` — ascending lists with the same entries are the same.
* `exists_of_mem_left` — entries of two related lists correspond; `exists_forall₂` — a related
  list, from an entry for each.
-/

namespace ShaderVariants

variable {α β γ : Type*}

/-! ### Searching for a key -/

/-- With distinct keys, a search finds exactly the entry with the key. -/
theorem find?_key_iff [DecidableEq β] {f : α → β} {l : List α} (hnodup : (l.map f).Nodup)
    {k : β} {a : α} : l.find? (f · = k) = some a ↔ a ∈ l ∧ f a = k := by
  constructor
  · intro h
    exact ⟨List.mem_of_find?_eq_some h, by simpa using List.find?_some h⟩
  · rintro ⟨ha, rfl⟩
    cases h : l.find? (f · = f a) with
    | none => exact absurd (decide_eq_true rfl) (List.find?_eq_none.mp h a ha)
    | some b =>
      have hb : f b = f a := by simpa using List.find?_some h
      rw [List.inj_on_of_nodup_map hnodup (List.mem_of_find?_eq_some h) ha hb]

section Lookup

variable [DecidableEq α]

theorem mem_of_lookup {k : α} {v : β} {l : List (α × β)} (h : l.lookup k = some v) :
    (k, v) ∈ l := by
  obtain ⟨l₁, l₂, hsplit, -⟩ := List.lookup_eq_some_iff.mp h
  rw [hsplit]
  exact List.mem_append_right _ List.mem_cons_self

/-- With distinct keys, every entry is found under its key. -/
theorem lookup_of_mem {k : α} {v : β} : ∀ {l : List (α × β)}, (l.map (·.1)).Nodup →
    (k, v) ∈ l → l.lookup k = some v := by
  intro l
  induction l with
  | nil => exact fun _ hmem => absurd hmem List.not_mem_nil
  | cons e rest ih =>
    intro hnodup hmem
    obtain ⟨hhead, htail⟩ := List.nodup_cons.mp hnodup
    rcases List.mem_cons.mp hmem with rfl | hmem
    · exact List.lookup_cons_self
    · have hne : (k == e.1) = false := by
        refine beq_eq_false_iff_ne.mpr ?_
        rintro rfl
        exact hhead (List.mem_map_of_mem (f := (·.1)) hmem)
      rw [List.lookup_cons, hne]
      exact ih htail hmem

theorem lookup_eq_none {k : α} {l : List (α × β)} (h : k ∉ l.map (·.1)) :
    l.lookup k = none := by
  rw [List.lookup_eq_none_iff]
  intro p hp
  exact bne_iff_ne.mpr fun heq => h (heq ▸ List.mem_map_of_mem (f := (·.1)) hp)

theorem lookup_map_value (f : β → γ) (k : α) : ∀ l : List (α × β),
    (l.map fun (id, v) => (id, f v)).lookup k = (l.lookup k).map f := by
  intro l
  induction l with
  | nil => rfl
  | cons e rest ih =>
    rw [List.map_cons, List.lookup_cons, List.lookup_cons, ih]
    cases k == e.1 <;> rfl

end Lookup

/-! ### Ascending keys -/

theorem nodup_of_ascending {rank : α → ℕ} {l : List α} (h : l.Pairwise (rank · < rank ·)) :
    l.Nodup :=
  h.imp fun hlt heq => hlt.ne (congrArg rank heq)

/-- Ascending lists with the same entries are the same. -/
theorem eq_of_ascending {rank : α → ℕ} {l l' : List α} (h : l.Pairwise (rank · < rank ·))
    (h' : l'.Pairwise (rank · < rank ·)) (hmem : ∀ a, a ∈ l ↔ a ∈ l') : l = l' := by
  have hperm : l.Perm l' :=
    (List.perm_ext_iff_of_nodup (nodup_of_ascending h) (nodup_of_ascending h')).mpr hmem
  exact hperm.eq_of_pairwise (fun a b _ _ hlt hlt' => absurd hlt' hlt.asymm) h h'

/-! ### Corresponding entries -/

/-- Every entry of a list has one that corresponds to it in a related list. -/
theorem exists_of_mem_left {R : α → β → Prop} {a : α} : ∀ {l : List α} {l' : List β},
    List.Forall₂ R l l' → a ∈ l → ∃ b ∈ l', R a b := by
  intro l l' h
  induction h with
  | nil => intro ha; cases ha
  | cons hab _ ih =>
    intro ha
    rcases List.mem_cons.mp ha with rfl | ha
    · exact ⟨_, List.mem_cons_self, hab⟩
    · obtain ⟨b, hb, hrel⟩ := ih ha
      exact ⟨b, List.mem_cons_of_mem _ hb, hrel⟩

/-- If every entry has one that corresponds to it, these make up a related list. -/
theorem exists_forall₂ {R : α → β → Prop} : ∀ {l : List α}, (∀ a ∈ l, ∃ b, R a b) →
    ∃ l' : List β, List.Forall₂ R l l' := by
  intro l
  induction l with
  | nil => exact fun _ => ⟨[], .nil⟩
  | cons a rest ih =>
    intro h
    obtain ⟨b, hab⟩ := h a List.mem_cons_self
    obtain ⟨l', hrest⟩ := ih fun a ha => h a (List.mem_cons_of_mem _ ha)
    exact ⟨b :: l', .cons hab hrest⟩

end ShaderVariants
