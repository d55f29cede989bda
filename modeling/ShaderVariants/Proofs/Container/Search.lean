import Mathlib
import ShaderVariants.Container.File

/-!
# Searching the entries of a shader

The search for an option word halves the entries until one is left.  Whatever it finds is an
entry with the word, also among entries that are in no order; among entries in ascending
order it finds one if there is one.  The entries that were never used share one word, so a
lookup is exact as long as nothing else has that word and no other word occurs twice.

## Main results

* `IndexEntry.mem_of_search` — only entries with the word are found.
* `IndexEntry.isSome_search` — in ascending order, the search does not miss.
* `SetFile.findEntry?_eq_some_iff` — **the search finds what going through all entries
  would find.**
-/

namespace ShaderVariants

namespace IndexEntry

variable {word : OptionWord} {entries : List IndexEntry} {e : IndexEntry}

/-- Only entries with the word are found. -/
theorem mem_of_search (h : search word entries = some e) : e ∈ entries ∧ e.optionWord = word := by
  fun_induction search word entries with
  | case1 entries _ _ ih => exact ⟨List.mem_of_mem_take (ih h).1, (ih h).2⟩
  | case2 entries _ _ ih => exact ⟨List.mem_of_mem_drop (ih h).1, (ih h).2⟩
  | case3 entries _ =>
    obtain ⟨hhead, hword⟩ := Option.filter_eq_some_iff.mp h
    exact ⟨List.mem_of_head? hhead, of_decide_eq_true hword⟩

/-- Among entries in ascending order, the search does not miss a word that is there. -/
theorem isSome_search (hsorted : entries.Pairwise (·.optionWord ≤ ·.optionWord))
    (hmem : e ∈ entries) (hword : e.optionWord = word) : (search word entries).isSome := by
  fun_induction search word entries generalizing e with
  | case1 entries hlength hbefore ih =>
    -- the middle is beyond the word, and so is everything behind it
    refine ih (hsorted.sublist (List.take_sublist _ _)) ?_ hword
    obtain ⟨i, hi, rfl⟩ := List.getElem_of_mem hmem
    refine List.mem_take_iff_getElem.mpr ⟨i, ?_, rfl⟩
    by_contra hge
    have hle : entries[entries.length / 2].optionWord ≤ entries[i].optionWord := by
      rcases eq_or_lt_of_le (show entries.length / 2 ≤ i by omega) with heq | hlt
      · simp only [heq, le_refl]
      · exact List.pairwise_iff_getElem.mp hsorted _ i (by omega) hi hlt
    exact absurd (hle.trans hword.le) (not_le.mpr hbefore)
  | case2 entries hlength hbehind ih =>
    have hdrop := List.drop_eq_getElem_cons (show entries.length / 2 < entries.length by omega)
    have hrest := hsorted.sublist (List.drop_sublist (entries.length / 2) _)
    obtain ⟨i, hi, rfl⟩ := List.getElem_of_mem hmem
    rcases lt_or_ge i (entries.length / 2) with hlt | hge
    · -- with an entry of the word in front of it, the middle has the word as well
      have hle : entries[i].optionWord ≤ entries[entries.length / 2].optionWord :=
        List.pairwise_iff_getElem.mp hsorted i _ hi (by omega) hlt
      have hmiddle := le_antisymm (not_lt.mp hbehind) (hword.symm.le.trans hle)
      exact ih hrest (hdrop ▸ List.mem_cons_self) hmiddle
    · refine ih hrest ?_ hword
      exact List.mem_drop_iff_getElem.mpr ⟨i - entries.length / 2, by omega, by congr 1; omega⟩
  | case3 entries hlength =>
    rcases entries with _ | ⟨a, _ | ⟨b, rest⟩⟩
    · cases hmem
    · obtain rfl := List.mem_singleton.mp hmem
      simp [hword]
    · simp at hlength

theorem isUnused_eq_false (h : e.optionWord ≠ 0xFFFFFFFF) : e.isUnused = false :=
  beq_eq_false_iff_ne.mpr fun heq => h (congrArg optionWord heq)

end IndexEntry

namespace SetFile

variable {f : SetFile} {i : ℕ} {word : OptionWord} {e : IndexEntry}

theorem pairwise_entriesOf {entries : List IndexEntry} (h : f.entriesOf i = some entries) :
    entries.Pairwise (·.optionWord ≤ ·.optionWord) := by
  obtain ⟨s, hs, rfl⟩ := Option.map_eq_some_iff.mp h
  exact f.ascending s (List.mem_of_getElem? hs)

/-- Whatever a lookup finds is in use, and has the word. -/
theorem mem_of_findEntry (h : f.findEntry? i word = some e) :
    e ∈ f.usedEntriesOf i ∧ e.optionWord = word := by
  obtain ⟨entries, hentries, h⟩ := Option.bind_eq_some_iff.mp h
  obtain ⟨e', hsearch, h⟩ := Option.bind_eq_some_iff.mp h
  split_ifs at h with hunused
  obtain rfl := Option.some.inj h
  obtain ⟨hmem, hword⟩ := IndexEntry.mem_of_search hsearch
  refine ⟨?_, hword⟩
  unfold usedEntriesOf
  rw [hentries]
  exact List.mem_filter.mpr ⟨hmem, by simpa using hunused⟩

/-- A lookup does not miss a word that is there, unless unused entries have it as well. -/
theorem exists_findEntry (he : e ∈ f.usedEntriesOf i) (hword : e.optionWord ≠ 0xFFFFFFFF) :
    ∃ e', f.findEntry? i e.optionWord = some e' := by
  unfold usedEntriesOf at he
  unfold findEntry?
  cases hentries : f.entriesOf i with
  | none => simp [hentries] at he
  | some entries =>
    rw [hentries, Option.getD_some] at he
    obtain ⟨e', hsearch⟩ := Option.isSome_iff_exists.mp (IndexEntry.isSome_search
      (pairwise_entriesOf hentries) (List.mem_of_mem_filter he) rfl)
    have hunused : e'.isUnused = false :=
      IndexEntry.isUnused_eq_false ((IndexEntry.mem_of_search hsearch).2 ▸ hword)
    exact ⟨e', by simp [hsearch, hunused]⟩

/-- **A lookup finds the entry of a word**, provided that no two entries in use have a word in
common, and none has the word of the unused ones. -/
theorem findEntry?_eq_some_iff (hnodup : ((f.usedEntriesOf i).map (·.optionWord)).Nodup)
    (hused : ∀ e ∈ f.usedEntriesOf i, e.optionWord ≠ 0xFFFFFFFF) :
    f.findEntry? i word = some e ↔ e ∈ f.usedEntriesOf i ∧ e.optionWord = word := by
  refine ⟨mem_of_findEntry, ?_⟩
  rintro ⟨he, rfl⟩
  obtain ⟨e', hfind⟩ := exists_findEntry he (hused e he)
  obtain ⟨he', hword⟩ := mem_of_findEntry hfind
  rw [hfind, List.inj_on_of_nodup_map hnodup he' he hword]

end SetFile

end ShaderVariants
