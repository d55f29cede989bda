import Mathlib
import ShaderVariants.Proofs.Container.Capacity

/-!
# Histories of a writer

A writer can be called in any order, and goes on after calls that failed.  A write that fails
is *refused* if no index entry was taken for it: the header cannot be settled, the shader is
unknown, or it has no entry left.  All other failing writes are *spoiled*: their index entry
stays in use, and so do the bytes in front of the length that did not fit.

## Main definitions

* `Writer.Claims` — a write takes an index entry.
* `Writer.Spoils` — what may be left of a variant that was not written completely.
* `Writer.ReachedIn`, `Writer.Reached` — the states of a writer after any calls, in builds of
  either kind and in those with overflow checks.

## Main results

* `Writer.writeVariant_refused`, `Writer.writeVariant_spoiled` — **everything a failing write
  does.**
* `Writer.ReachedIn.exists_finish`, `Writer.ReachedIn.ofBytes_finish` — finishing succeeds as
  soon as something was accepted, and what is finished can be opened.
* `Writer.ReachedIn.wrote`, `Writer.ReachedIn.placed` — with nothing spoiled, a writer has
  written what it accepted, and its body consists of records.
-/

namespace ShaderVariants

namespace Writer

variable {w w' : Writer} {v : Variant} {e : WriteError}

/-! ### Settling the header -/

theorem settle_of_settle (h : w.settle = .ok w') : w'.settle = .ok w' := by
  obtain rfl := settle_ok h
  exact if_pos rfl

/-- A write settles the header first. -/
theorem writeVariant_of_settle (h : w.settle = .ok w') (v : Variant) :
    w'.writeVariant v = w.writeVariant v := by
  unfold writeVariant
  rw [h, settle_of_settle h]

theorem finish_of_settle (h : w.settle = .ok w') : w'.finish = w.finish := by
  unfold finish
  rw [h, settle_of_settle h]

/-- Shaders can be announced until the header is settled. -/
theorem addShader_ok {s : ShaderEntry} (h : w.addShader s = .ok w') : w.settled = false ∧
    w' = { w with shaders := w.shaders ++ [{ toShaderEntry := s }] } := by
  unfold addShader at h
  split_ifs at h with hsettled
  exact ⟨Bool.eq_false_iff.mpr hsettled, (Except.ok.inj h).symm⟩

/-! ### Failing writes -/

/-- The write takes an index entry: the header can be settled, and the first shader with the
checksum has an entry left. -/
def Claims (w : Writer) (v : Variant) : Prop :=
  (∃ w', w.settle = .ok w') ∧
    ∃ s, w.shaders.find? (·.info.sourceHash = v.key.sourceHash) = some s ∧
      s.used.length < s.variantCount

/-- What may be left of a variant: more bytes, and a program key that leads to programs that do
not fit. -/
def Spoils (w : Writer) (v : Variant) (key : VariantKey) (w' : Writer) : Prop :=
  ∃ more table, w' = { w with body := w.body ++ more, programs := table } ∧
    (table = w.programs ∨ ∃ p, table = w.programs ++ [(key, p)] ∧ v.programs.fits = false)

theorem append_failed {x : Encoded} (h : w.append x = (w', .error e)) :
    x.fits = false ∧ w' = { w with body := w.body ++ x.bytes } := by
  unfold append at h
  obtain ⟨hw, herror⟩ := Prod.mk.inj h
  split_ifs at herror with hfits
  exact ⟨Bool.eq_false_iff.mpr hfits, hw.symm⟩

theorem appendPrograms_failed {key : VariantKey}
    (h : w.appendPrograms v key = (w', .error e)) : w.Spoils v key w' := by
  unfold appendPrograms at h
  split at h
  · -- the programs are stored already, and their place does not fit
    obtain ⟨-, rfl⟩ := append_failed h
    exact ⟨_, _, rfl, .inl rfl⟩
  · have hnothing : w.Spoils v key w := ⟨[], w.programs, by rw [List.append_nil], .inl rfl⟩
    by_cases hfull : Word.limit ≤ w.body.length
    · rw [if_pos hfull] at h
      obtain ⟨rfl, -⟩ := Prod.mk.inj h
      exact hnothing
    rw [if_neg hfull] at h
    split at h
    · obtain ⟨rfl, -⟩ := Prod.mk.inj h
      exact hnothing
    · next p hplace =>
      -- the place is a word, so it is the programs behind it that do not fit
      obtain ⟨hfits, rfl⟩ := append_failed h
      have hword := fits_word_iff.mpr (Overflow.lt_of_below (by decide) hplace)
      rw [Encoded.append_assoc, Encoded.fits_append, hword, Bool.true_and] at hfits
      exact ⟨_, _, rfl, .inr ⟨p, rfl, hfits⟩⟩

theorem appendVariant_failed {key : VariantKey}
    (h : w.appendVariant v key = (w', .error e)) : w.Spoils v key w' := by
  unfold appendVariant at h
  split at h
  · next w₁ happend =>
    obtain ⟨-, rfl⟩ := append_ok happend
    obtain ⟨more, table, rfl, htable⟩ := appendPrograms_failed h
    exact ⟨(encode v.body).bytes ++ more, table, by rw [← List.append_assoc], htable⟩
  · next w₁ e₁ happend =>
    obtain ⟨rfl, -⟩ := Prod.mk.inj h
    obtain ⟨-, rfl⟩ := append_failed happend
    exact ⟨_, _, rfl, .inl rfl⟩

/-- **A write that is refused** settles the header at most. -/
theorem writeVariant_refused (h : w.writeVariant v = (w', .error e)) (hrefused : ¬ w.Claims v) :
    w' = w ∨ w.settle = .ok w' := by
  unfold writeVariant at h
  split at h
  · exact .inl (Prod.mk.inj h).1.symm
  · next w₁ hsettle =>
    obtain rfl := settle_ok hsettle
    dsimp only at h
    split at h
    · rw [← (Prod.mk.inj h).1]
      exact .inr hsettle
    · next s hs =>
      have hcount : s.variantCount ≤ s.used.length :=
        not_lt.mp fun hlt => hrefused ⟨⟨_, hsettle⟩, s, hs, hlt⟩
      rw [if_pos hcount] at h
      rw [← (Prod.mk.inj h).1]
      exact .inr hsettle

/-- **A write that is spoiled** keeps its index entry, which says where the body has ended if
that is a word. -/
theorem writeVariant_spoiled (h : w.writeVariant v = (w', .error e)) (hclaims : w.Claims v) :
    ∃ s entry, w.shaders.find? (·.info.sourceHash = v.key.sourceHash) = some s ∧
      s.used.length < s.variantCount ∧ w.settle = .ok { w with settled := true } ∧
      (w.body.length < Word.limit ∧ entry = ⟨v.key.optionWord, w.body.length⟩ ∨
        Word.limit ≤ w.body.length ∧ entry = .unused) ∧
      { w with
        shaders := useEntry v.key.sourceHash entry w.shaders
        settled := true }.Spoils v (s.info.programKey v.key.optionWord) w' := by
  obtain ⟨⟨w₁, hsettle⟩, s, hs, hcount⟩ := hclaims
  obtain rfl := settle_ok hsettle
  unfold writeVariant at h
  rw [hsettle] at h
  dsimp only at h
  rw [hs] at h
  dsimp only at h
  rw [if_neg (not_le.mpr hcount)] at h
  by_cases hfull : Word.limit ≤ w.body.length
  · rw [if_pos hfull] at h
    obtain ⟨rfl, -⟩ := Prod.mk.inj h
    exact ⟨s, .unused, hs, hcount, hsettle, .inr ⟨hfull, rfl⟩, [], w.programs,
      by rw [List.append_nil], .inl rfl⟩
  · rw [if_neg hfull] at h
    exact ⟨s, _, hs, hcount, hsettle, .inl ⟨not_le.mp hfull, rfl⟩, appendVariant_failed h⟩

/-! ### Entries in use -/

/-- Only the first shader with the checksum takes the entry. -/
theorem useEntry_eq_set (entry : IndexEntry) {hash : UInt32} {s : OpenShader} :
    ∀ open_ : List OpenShader, open_.find? (·.info.sourceHash = hash) = some s →
    ∃ k, open_[k]? = some s ∧ (∀ j t, j < k → open_[j]? = some t → t.info.sourceHash ≠ hash) ∧
      useEntry hash entry open_ = open_.set k { s with used := s.used ++ [entry] } := by
  intro open_
  induction open_ with
  | nil => intro h; cases h
  | cons u rest ih =>
    intro h
    by_cases hu : u.info.sourceHash = hash
    · rw [List.find?_cons_of_pos (by simpa using hu)] at h
      obtain rfl := Option.some.inj h
      refine ⟨0, rfl, fun j t hj => absurd hj (Nat.not_lt_zero j), ?_⟩
      rw [useEntry, if_pos hu, List.set_cons_zero]
    · rw [List.find?_cons_of_neg (by simpa using hu)] at h
      obtain ⟨k, hk, hbefore, hset⟩ := ih h
      refine ⟨k + 1, hk, fun j t hj ht => ?_, ?_⟩
      · cases j with
        | zero => exact Option.some.inj ht ▸ hu
        | succ j => exact hbefore j t (Nat.lt_of_succ_lt_succ hj) ht
      · rw [useEntry, if_neg hu, hset, List.set_cons_succ]

/-- The entries in use are those from before and the new one. -/
theorem exists_of_mem_useEntry {hash : UInt32} {entry e : IndexEntry} {s t : OpenShader}
    {open_ : List OpenShader} (hs : open_.find? (·.info.sourceHash = hash) = some s)
    (ht : t ∈ useEntry hash entry open_) (he : e ∈ t.used) :
    (∃ u ∈ open_, e ∈ u.used) ∨ e = entry := by
  obtain ⟨k, hk, -, hset⟩ := useEntry_eq_set entry open_ hs
  rw [hset] at ht
  rcases List.mem_or_eq_of_mem_set ht with ht | rfl
  · exact .inl ⟨t, ht, he⟩
  · rcases List.mem_append.mp he with he | he
    · exact .inl ⟨s, List.mem_of_getElem? hk, he⟩
    · exact .inr (List.mem_singleton.mp he)

theorem reserved_useEntry {hash : UInt32} {entry : IndexEntry} {s : OpenShader}
    {open_ : List OpenShader} (hs : open_.find? (·.info.sourceHash = hash) = some s)
    (hcount : s.used.length < s.variantCount)
    (h : ∀ t ∈ open_, t.used.length ≤ t.variantCount) :
    ∀ t ∈ useEntry hash entry open_, t.used.length ≤ t.variantCount := by
  intro t ht
  obtain ⟨k, -, -, hset⟩ := useEntry_eq_set entry open_ hs
  rw [hset] at ht
  rcases List.mem_or_eq_of_mem_set ht with ht | rfl
  · exact h t ht
  · rw [List.length_append, List.length_singleton]
    exact hcount

/-! ### Calls in any order -/

/-- The states of a writer after any calls: the shaders that were announced, the variants that
were accepted, and those that were spoiled, in the order of the calls. -/
inductive ReachedIn (o : Overflow) :
    List ShaderEntry → List Variant → List Variant → Writer → Prop where
  | new : ReachedIn o [] [] [] { overflow := o }
  | announced {shaders : List ShaderEntry} {written spoiled : List Variant} {w w' : Writer}
    {s : ShaderEntry} : ReachedIn o shaders written spoiled w → w.addShader s = .ok w' →
    ReachedIn o (shaders ++ [s]) written spoiled w'
  | accepted {shaders : List ShaderEntry} {written spoiled : List Variant} {w w' : Writer}
    {v : Variant} : ReachedIn o shaders written spoiled w → w.writeVariant v = (w', .ok ()) →
    ReachedIn o shaders (written ++ [v]) spoiled w'
  | refused {shaders : List ShaderEntry} {written spoiled : List Variant} {w w' : Writer}
    {v : Variant} {e : WriteError} : ReachedIn o shaders written spoiled w →
    w.writeVariant v = (w', .error e) → ¬ w.Claims v → ReachedIn o shaders written spoiled w'
  | spoiled {shaders : List ShaderEntry} {written spoiled : List Variant} {w w' : Writer}
    {v : Variant} {e : WriteError} : ReachedIn o shaders written spoiled w →
    w.writeVariant v = (w', .error e) → w.Claims v →
    ReachedIn o shaders written (spoiled ++ [v]) w'

/-- The states in a build with overflow checks. -/
abbrev Reached : List ShaderEntry → List Variant → List Variant → Writer → Prop :=
  ReachedIn .refused

namespace ReachedIn

variable {o : Overflow} {shaders : List ShaderEntry} {written spoiled : List Variant}

/-- As long as the header is not settled, shaders have been announced and nothing else. -/
theorem unsettled (h : ReachedIn o shaders written spoiled w) (hw : w.settled = false) :
    written = [] ∧ spoiled = [] ∧
      w = { shaders := shaders.map fun s => { toShaderEntry := s }, overflow := o } := by
  induction h with
  | new => exact ⟨rfl, rfl, rfl⟩
  | @announced shaders written spoiled w w' s _ hadd ih =>
    obtain ⟨hsettled, rfl⟩ := addShader_ok hadd
    obtain ⟨hwritten, hspoiled, hfresh⟩ := ih hsettled
    refine ⟨hwritten, hspoiled, ?_⟩
    rw [hfresh, List.map_append, List.map_singleton]
  | accepted _ hwrite _ =>
    obtain ⟨s, -, -, -, -, p, more, table, -, -, rfl⟩ := writeVariant_ok hwrite
    cases hw
  | refused _ hwrite hclaims ih =>
    rcases writeVariant_refused hwrite hclaims with rfl | hsettle
    · exact ih hw
    · obtain rfl := settle_ok hsettle
      cases hw
  | spoiled _ hwrite hclaims _ =>
    obtain ⟨s, entry, -, -, -, -, more, table, rfl, -⟩ := writeVariant_spoiled hwrite hclaims
    cases hw

/-- Before a shader is announced nothing else has happened. -/
theorem fresh_of_addShader {s : ShaderEntry} (h : ReachedIn o shaders written spoiled w)
    (hadd : w.addShader s = .ok w') : written = [] ∧ spoiled = [] ∧
      w' = { shaders := (shaders ++ [s]).map fun s => { toShaderEntry := s }, overflow := o } := by
  obtain ⟨hsettled, hw'⟩ := addShader_ok hadd
  exact (h.announced hadd).unsettled (hw' ▸ hsettled)

/-- No shader has more entries in use than it has reserved. -/
theorem reserved (h : ReachedIn o shaders written spoiled w) :
    ∀ s ∈ w.shaders, s.used.length ≤ s.variantCount := by
  induction h with
  | new => exact fun s hs => absurd hs List.not_mem_nil
  | announced _ hadd ih =>
    obtain ⟨-, rfl⟩ := addShader_ok hadd
    intro s hs
    rcases List.mem_append.mp hs with hs | hs
    · exact ih s hs
    · obtain rfl := List.mem_singleton.mp hs
      exact Nat.zero_le _
  | accepted _ hwrite ih =>
    obtain ⟨s, hs, hcount, -, -, p, more, table, -, -, rfl⟩ := writeVariant_ok hwrite
    exact reserved_useEntry hs hcount ih
  | refused _ hwrite hclaims ih =>
    rcases writeVariant_refused hwrite hclaims with rfl | hsettle
    · exact ih
    · obtain rfl := settle_ok hsettle
      exact ih
  | spoiled _ hwrite hclaims ih =>
    obtain ⟨s, entry, hs, hcount, -, -, more, table, rfl, -⟩ :=
      writeVariant_spoiled hwrite hclaims
    exact reserved_useEntry hs hcount ih

/-- The shaders are those that were announced. -/
theorem map_shaders (h : ReachedIn o shaders written spoiled w) :
    w.shaders.map (·.toShaderEntry) = shaders := by
  induction h with
  | new => rfl
  | announced _ hadd ih =>
    obtain ⟨-, rfl⟩ := addShader_ok hadd
    rw [List.map_append, ih, List.map_singleton]
  | accepted _ hwrite ih =>
    obtain ⟨s, -, -, -, -, p, more, table, -, -, rfl⟩ := writeVariant_ok hwrite
    exact (map_useEntry _ _ _).trans ih
  | refused _ hwrite hclaims ih =>
    rcases writeVariant_refused hwrite hclaims with rfl | hsettle
    · exact ih
    · obtain rfl := settle_ok hsettle
      exact ih
  | spoiled _ hwrite hclaims ih =>
    obtain ⟨s, entry, -, -, -, -, more, table, rfl, -⟩ := writeVariant_spoiled hwrite hclaims
    exact (map_useEntry _ _ _).trans ih

/-- A header that is settled fits. -/
theorem headerFits (h : ReachedIn o shaders written spoiled w) (hw : w.settled = true) :
    HeaderFits shaders := by
  induction h with
  | new => cases hw
  | announced _ hadd _ =>
    obtain ⟨hsettled, rfl⟩ := addShader_ok hadd
    exact absurd (hsettled.symm.trans hw) Bool.false_ne_true
  | accepted hreached hwrite ih =>
    exact ((writeVariant_iff hreached.map_shaders ih).mp hwrite).1
  | refused hreached hwrite hclaims ih =>
    rcases writeVariant_refused hwrite hclaims with rfl | hsettle
    · exact ih hw
    · exact ((settle_iff hreached.map_shaders ih).mp hsettle).1
  | spoiled hreached hwrite hclaims ih =>
    obtain ⟨s, entry, -, -, hsettle, -⟩ := writeVariant_spoiled hwrite hclaims
    exact ((settle_iff hreached.map_shaders ih).mp hsettle).1

/-- Index entries in use fit if option words do. -/
theorem fits_entries (h : ReachedIn o shaders written spoiled w)
    (hwords : ∀ u ∈ written ++ spoiled, u.key.optionWord < Word.limit) :
    ∀ s ∈ w.shaders, ∀ e ∈ s.used, e.optionWord < Word.limit ∧ e.offset < Word.limit := by
  induction h with
  | new => exact fun s hs => absurd hs List.not_mem_nil
  | announced _ hadd ih =>
    obtain ⟨-, rfl⟩ := addShader_ok hadd
    intro s hs e he
    rcases List.mem_append.mp hs with hs | hs
    · exact ih hwords s hs e he
    · obtain rfl := List.mem_singleton.mp hs
      exact absurd he List.not_mem_nil
  | @accepted shaders written spoiled w w' v _ hwrite ih =>
    obtain ⟨s, hs, -, hplace, -, p, more, table, -, -, rfl⟩ := writeVariant_ok hwrite
    rw [List.append_assoc, List.forall_mem_append, List.forall_mem_append,
      List.forall_mem_singleton] at hwords
    obtain ⟨hwritten, hword, hspoiled⟩ := hwords
    intro t ht e he
    rcases exists_of_mem_useEntry hs ht he with ⟨u, hu, he⟩ | rfl
    · exact ih (List.forall_mem_append.mpr ⟨hwritten, hspoiled⟩) u hu e he
    · exact ⟨hword, hplace⟩
  | refused _ hwrite hclaims ih =>
    rcases writeVariant_refused hwrite hclaims with rfl | hsettle
    · exact ih hwords
    · obtain rfl := settle_ok hsettle
      exact ih hwords
  | @spoiled shaders written spoiled w w' v e _ hwrite hclaims ih =>
    obtain ⟨s, entry, hs, -, -, hentry, more, table, rfl, -⟩ := writeVariant_spoiled hwrite hclaims
    rw [← List.append_assoc, List.forall_mem_append, List.forall_mem_singleton] at hwords
    intro t ht e he
    rcases exists_of_mem_useEntry hs ht he with ⟨u, hu, he⟩ | rfl
    · exact ih hwords.1 u hu e he
    · rcases hentry with ⟨hplace, rfl⟩ | ⟨-, rfl⟩
      · exact ⟨hwords.2, hplace⟩
      · decide

/-- As soon as a variant was accepted, the header is settled. -/
theorem settled (h : ReachedIn o shaders written spoiled w) (hne : written ≠ []) :
    w.settled = true := by
  by_contra hw
  exact hne (h.unsettled (Bool.eq_false_iff.mpr hw)).1

/-- **As soon as a variant was accepted**, the writer can be finished, and the file opened. -/
theorem exists_finish (h : ReachedIn o shaders written spoiled w)
    (hwords : ∀ u ∈ written ++ spoiled, u.key.optionWord < Word.limit) (hne : written ≠ []) :
    ∃ bytes, w.finish = .ok bytes ∧ SetFile.ofBytes bytes = .ok w.file := by
  refine ofBytes_finish_of_fits ?_ h.reserved (h.fits_entries hwords)
  exact h.map_shaders.symm ▸ h.headerFits (h.settled hne)

/-- **What is finished can be opened.** -/
theorem ofBytes_finish (h : ReachedIn o shaders written spoiled w)
    (hwords : ∀ u ∈ written ++ spoiled, u.key.optionWord < Word.limit) {bytes : List UInt8}
    (hfinish : w.finish = .ok bytes) : SetFile.ofBytes bytes = .ok w.file := by
  have hheader := headerFits_of_finish h.map_shaders h.headerFits hfinish
  obtain ⟨bytes', hfinish', hopen⟩ := ofBytes_finish_of_fits (h.map_shaders.symm ▸ hheader)
    h.reserved (h.fits_entries hwords)
  obtain rfl := Except.ok.inj (hfinish.symm.trans hfinish')
  exact hopen

/-- **With nothing spoiled**, a writer has written what it accepted. -/
theorem wrote (h : Reached shaders written spoiled w) (hspoiled : spoiled = [])
    (hhashes : (shaders.map (·.info.sourceHash)).Nodup) : Wrote shaders written w := by
  induction h with
  | new => exact wrote_fresh []
  | announced hreached hadd _ =>
    obtain ⟨rfl, -, rfl⟩ := hreached.fresh_of_addShader hadd
    exact wrote_fresh _
  | accepted _ hwrite ih => exact (ih hspoiled hhashes).step hhashes hwrite
  | refused _ hwrite hclaims ih =>
    have hwrote := ih hspoiled hhashes
    rcases writeVariant_refused hwrite hclaims with rfl | hsettle
    · exact hwrote
    · obtain rfl := settle_ok hsettle
      exact ⟨hwrote.overflow, hwrote.announced, hwrote.entries, hwrote.reserved, hwrote.known,
        hwrote.counted, hwrote.programs⟩
  | spoiled => exact absurd hspoiled (List.append_ne_nil_of_right_ne_nil _ (List.cons_ne_nil _ _))

/-- **With nothing spoiled**, the body consists of the records of what was accepted. -/
theorem placed (h : Reached shaders written spoiled w) (hspoiled : spoiled = []) :
    Placed shaders (layOut shaders [] written) w := by
  induction h with
  | new => exact placed_addAll (addAll_eq [] {} rfl)
  | announced hreached hadd _ =>
    obtain ⟨rfl, -, rfl⟩ := hreached.fresh_of_addShader hadd
    exact placed_addAll (addAll_eq _ {} rfl)
  | accepted _ hwrite ih =>
    rw [layOut_append]
    exact (ih hspoiled).step hwrite
  | refused _ hwrite hclaims ih =>
    have hplaced := ih hspoiled
    rcases writeVariant_refused hwrite hclaims with rfl | hsettle
    · exact hplaced
    · obtain ⟨hheader, rfl⟩ := (settle_iff hplaced.announced hplaced.header).mp hsettle
      exact { hplaced with header := fun _ => hheader }
  | spoiled => exact absurd hspoiled (List.append_ne_nil_of_right_ne_nil _ (List.cons_ne_nil _ _))

/-- The rest of a run. -/
theorem writeAll {variants : List Variant} (h : ReachedIn o shaders written spoiled w)
    (hrun : w.writeAll variants = .ok w') :
    ReachedIn o shaders (written ++ variants) spoiled w' := by
  induction variants generalizing written w with
  | nil =>
    obtain rfl : w = w' := Except.ok.inj hrun
    rwa [List.append_nil]
  | cons v rest ih =>
    unfold Writer.writeAll at hrun
    split at hrun
    · next w₁ hwrite =>
      have hrest := ih (h.accepted hwrite) hrun
      rwa [List.append_assoc] at hrest
    · cases hrun

theorem addAll {more : List ShaderEntry} (h : ReachedIn o shaders written spoiled w)
    (hadd : w.addAll more = .ok w') : ReachedIn o (shaders ++ more) written spoiled w' := by
  induction more generalizing shaders w with
  | nil =>
    obtain rfl : w = w' := Except.ok.inj hadd
    rwa [List.append_nil]
  | cons s rest ih =>
    unfold Writer.addAll at hadd
    split at hadd
    · next w₁ hfirst =>
      have hrest := ih (h.announced hfirst) hadd
      rwa [List.append_assoc] at hrest
    · cases hadd

end ReachedIn

/-- A run is a history without failures. -/
theorem reached_run {shaders : List ShaderEntry} {variants : List Variant}
    (hrun : run shaders variants = .ok w) : Reached shaders variants [] w := by
  unfold run at hrun
  split at hrun
  · next w₁ hadd => exact (ReachedIn.new.addAll hadd).writeAll hrun
  · cases hrun

end Writer

end ShaderVariants
