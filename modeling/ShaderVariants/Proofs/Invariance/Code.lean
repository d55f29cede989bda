import Mathlib
import ShaderVariants.Glsl.Stage
import ShaderVariants.Proofs.Invariance.Layout

/-!
# Code of indistinguishable variants

Generated code sees the values of options in three ways: through the conditions of
storage blocks, through the instancing option, and through the selections that are folded
in the bodies of functions, however deep they are nested.

## Main results

* `Statement.text_congr`, `Statement.faults_congr` — the text of a statement depends only
  on the values of the names in it.
* `ShaderUnit.Indistinguishable.render_eq` — **the same code**, or the same reasons why
  there is none, for any one layout and pipeline state.
-/

namespace ShaderVariants

/-! ### Statements -/

namespace Statement

open ShaderVariants.Valuation (AgreeOn agreeOn_append)

variable {v v' : Valuation}

mutual

/-- The text of a statement depends only on the values of the names in it. -/
theorem text_congr : ∀ (s : Statement) (depth : ℕ), AgreeOn s.nodes v v' →
    s.text v depth = s.text v' depth
  | .empty, _, _ | .declare _, _, _ | .expression _, _, _ | .caseLabel _, _, _
  | .defaultLabel, _, _ | .giveBack none, _, _ | .giveBack (some _), _, _ | .jump _, _, _ => rfl
  | .selection condition consequent none, depth, h => by
    obtain ⟨hc, ht⟩ := agreeOn_append.mp h
    rw [text, text, Expr.holds?_congr hc, text_congr consequent depth ht,
      text_congr consequent (depth + 1) ht, inside_congr consequent (depth + 1) ht]
  | .selection condition consequent (some alternative), depth, h => by
    obtain ⟨h, he⟩ := agreeOn_append.mp h
    obtain ⟨hc, ht⟩ := agreeOn_append.mp h
    rw [text, text, Expr.holds?_congr hc, text_congr consequent depth ht,
      text_congr consequent (depth + 1) ht, inside_congr consequent (depth + 1) ht,
      text_congr alternative depth he, text_congr alternative (depth + 1) he,
      inside_congr alternative (depth + 1) he]
  | .switch value body, depth, h => by
    rw [text, text, allText_congr body (depth + 1) (agreeOn_append.mp h).2]
  | .forLoop start condition update body, depth, h => by
    have hb := (agreeOn_append.mp h).2
    rw [text, text, text_congr body (depth + 1) hb, inside_congr body (depth + 1) hb]
  | .whileLoop condition body, depth, h => by
    have hb := (agreeOn_append.mp h).2
    rw [text, text, text_congr body (depth + 1) hb, inside_congr body (depth + 1) hb]
  | .doWhile body condition, depth, h => by
    have hb := (agreeOn_append.mp h).2
    rw [text, text, text_congr body (depth + 1) hb, inside_congr body (depth + 1) hb]
  | .scope body, depth, h => by
    rw [text, text, allText_congr body (depth + 1) h]

theorem inside_congr : ∀ (s : Statement) (depth : ℕ), AgreeOn s.nodes v v' →
    s.inside v depth = s.inside v' depth
  | .scope body, depth, h => by rw [inside, inside, allText_congr body depth h]
  | .empty, _, _ | .declare _, _, _ | .expression _, _, _ | .selection _ _ _, _, _
  | .switch _ _, _, _ | .caseLabel _, _, _ | .defaultLabel, _, _ | .forLoop _ _ _ _, _, _
  | .whileLoop _ _, _, _ | .doWhile _ _, _, _ | .giveBack _, _, _ | .jump _, _, _ => rfl

theorem allText_congr : ∀ (body : List Statement) (depth : ℕ), AgreeOn (allNodes body) v v' →
    allText v depth body = allText v' depth body
  | [], _, _ => rfl
  | s :: rest, depth, h => by
    obtain ⟨hs, hrest⟩ := agreeOn_append.mp h
    rw [allText, allText, text_congr s depth hs, allText_congr rest depth hrest]

end

mutual

/-- What is wrong with the types in a statement depends only on the values of the names in
it, which settle the branches that are written. -/
theorem faults_congr : ∀ s : Statement, AgreeOn s.nodes v v' → s.faults v = s.faults v'
  | .empty, _ | .declare _, _ | .expression _, _ | .caseLabel _, _ | .defaultLabel, _
  | .giveBack _, _ | .jump _, _ => rfl
  | .selection condition consequent none, h => by
    obtain ⟨hc, ht⟩ := agreeOn_append.mp h
    rw [faults, faults, Expr.holds?_congr hc, faults_congr consequent ht]
  | .selection condition consequent (some alternative), h => by
    obtain ⟨h, he⟩ := agreeOn_append.mp h
    obtain ⟨hc, ht⟩ := agreeOn_append.mp h
    rw [faults, faults, Expr.holds?_congr hc, faults_congr consequent ht,
      faults_congr alternative he]
  | .switch value body, h => by
    rw [faults, faults, allFaults_congr body (agreeOn_append.mp h).2]
  | .forLoop start condition update body, h => by
    rw [faults, faults, faults_congr body (agreeOn_append.mp h).2]
  | .whileLoop condition body, h => by
    rw [faults, faults, faults_congr body (agreeOn_append.mp h).2]
  | .doWhile body condition, h => by
    rw [faults, faults, faults_congr body (agreeOn_append.mp h).2]
  | .scope body, h => by rw [faults, faults, allFaults_congr body h]

theorem allFaults_congr : ∀ body : List Statement, AgreeOn (allNodes body) v v' →
    allFaults v body = allFaults v' body
  | [], _ => rfl
  | s :: rest, h => by
    obtain ⟨hs, hrest⟩ := agreeOn_append.mp h
    rw [allFaults, allFaults, faults_congr s hs, allFaults_congr rest hrest]

end

end Statement

/-! ### Functions -/

namespace Function

variable {v v' : Valuation} {f : Function}

/-- The body of a function sees no names but those of the function. -/
theorem agreeOn_body (h : Valuation.AgreeOn f.nodes v v') {body : Statement}
    (hbody : f.body = some body) : Valuation.AgreeOn body.nodes v v' := by
  have := (Valuation.agreeOn_append.mp h).2
  rwa [hbody] at this

theorem text_congr (h : Valuation.AgreeOn f.nodes v v') : f.text v = f.text v' := by
  unfold Function.text
  cases hbody : f.body with
  | none => rfl
  | some body =>
    have hb := agreeOn_body h hbody
    simp only [body.inside_congr 1 hb, body.text_congr 1 hb]

theorem faults_congr (h : Valuation.AgreeOn f.nodes v v') : f.faults v = f.faults v' := by
  unfold Function.faults
  cases hbody : f.body with
  | none => rfl
  | some body => simp only [Option.map_some, body.faults_congr (agreeOn_body h hbody)]

end Function

/-! ### Stages -/

namespace ShaderUnit.Indistinguishable

variable {u : ShaderUnit} {v v' : Valuation} (h : u.Indistinguishable v v')

include h

theorem agreeOn_stage {b : StageBlock} (hb : b ∈ u.stageBlocks) :
    Valuation.AgreeOn b.nodes v v' := by
  obtain ⟨block, hmem, hsome⟩ := List.mem_filterMap.mp hb
  have hagree := h.names.of_mem_flatMap hmem
  cases block with
  | stage b' =>
    obtain rfl : b' = b := by simpa [Block.stage?] using hsome
    exact hagree
  | storage b' => simp [Block.stage?] at hsome
  | pipeline b' => simp [Block.stage?] at hsome
  | function f => simp [Block.stage?] at hsome

theorem agreeOn_function {f : Function} (hf : f ∈ u.functions) :
    Valuation.AgreeOn f.nodes v v' := by
  obtain ⟨block, hmem, hsome⟩ := List.mem_filterMap.mp hf
  have hagree := h.names.of_mem_flatMap hmem
  cases block with
  | function f' =>
    obtain rfl : f' = f := by simpa [Block.function?] using hsome
    exact hagree
  | storage b' => simp [Block.function?] at hsome
  | stage b' => simp [Block.function?] at hsome
  | pipeline b' => simp [Block.function?] at hsome

variable (layout : Layout) (pipeline : PipelineState) (stage : StageBlock)

theorem activeStorage_eq :
    (StageInput.mk u stage layout pipeline v).activeStorage
      = (StageInput.mk u stage layout pipeline v').activeStorage := by
  apply List.filter_congr
  rintro ⟨i, b⟩ hb
  simp only [h.condition_eq hb]

theorem storageText_eq {i : ℕ} {b : StorageBlock}
    (hb : (i, b) ∈ u.storageBlocks) :
    (StageInput.mk u stage layout pipeline v).storageText i b
      = (StageInput.mk u stage layout pipeline v').storageText i b := by
  unfold StageInput.storageText
  cases hkind : b.kind with
  | instances => simp only [h.isInstanced_eq hb hkind]; rfl
  | attributes => simp only; cases stage.stage <;> rfl
  | uniform => rfl
  | varying => simp only; cases stage.stage <;> rfl

theorem storageFaults_eq {i : ℕ} {b : StorageBlock}
    (hb : (i, b) ∈ u.storageBlocks) :
    (StageInput.mk u stage layout pipeline v).storageFaults i b
      = (StageInput.mk u stage layout pipeline v').storageFaults i b := by
  unfold StageInput.storageFaults
  cases hkind : b.kind with
  | instances => simp only [h.isInstanced_eq hb hkind]; rfl
  | attributes => simp only; cases stage.stage <;> rfl
  | uniform => rfl
  | varying => simp only; cases stage.stage <;> rfl

variable {stage} (hstage : stage ∈ u.stageBlocks)

include hstage

/-- The functions of the source and those of the stage are all read by the analysis. -/
theorem agreeOn_functions {f : Function} (hf : f ∈ u.functions ++ stage.functions) :
    Valuation.AgreeOn f.nodes v v' := by
  rcases List.mem_append.mp hf with hf | hf
  · exact h.agreeOn_function hf
  · have := (Valuation.agreeOn_append.mp (h.agreeOn_stage hstage)).1
    exact ((Valuation.agreeOn_append.mp this).2).of_mem_flatMap hf

theorem text_eq :
    (StageInput.mk u stage layout pipeline v).text
      = (StageInput.mk u stage layout pipeline v').text := by
  have hstorage : (StageInput.mk u stage layout pipeline v).activeStorage.map
        (fun p => (StageInput.mk u stage layout pipeline v).storageText p.1 p.2)
      = (StageInput.mk u stage layout pipeline v').activeStorage.map
        (fun p => (StageInput.mk u stage layout pipeline v').storageText p.1 p.2) := by
    rw [h.activeStorage_eq]
    apply List.map_congr_left
    intro p hp
    exact h.storageText_eq layout pipeline stage (List.mem_of_mem_filter hp)
  have hfunctions : (u.functions ++ stage.functions).map (Function.text v)
      = (u.functions ++ stage.functions).map (Function.text v') :=
    List.map_congr_left fun f hf => Function.text_congr (h.agreeOn_functions hstage hf)
  have hbody : Statement.allText v 1 stage.body = Statement.allText v' 1 stage.body :=
    Statement.allText_congr _ _ (Valuation.agreeOn_append.mp (h.agreeOn_stage hstage)).2
  simp only [StageInput.text, StageInput.functions, StageInput.mainText, hbody]
  rw [hfunctions]
  congr 3
  exact congrArg (StageInput.prologue ++ String.join ·) hstorage

theorem faults_eq :
    (StageInput.mk u stage layout pipeline v).faults
      = (StageInput.mk u stage layout pipeline v').faults := by
  have hstorage : (StageInput.mk u stage layout pipeline v).activeStorage.flatMap
        (fun p => (StageInput.mk u stage layout pipeline v).storageFaults p.1 p.2)
      = (StageInput.mk u stage layout pipeline v').activeStorage.flatMap
        (fun p => (StageInput.mk u stage layout pipeline v').storageFaults p.1 p.2) := by
    rw [h.activeStorage_eq]
    apply List.flatMap_congr
    intro p hp
    exact h.storageFaults_eq layout pipeline stage (List.mem_of_mem_filter hp)
  have hfunctions : (u.functions ++ stage.functions).flatMap (Function.faults v)
      = (u.functions ++ stage.functions).flatMap (Function.faults v') :=
    List.flatMap_congr fun f hf => Function.faults_congr (h.agreeOn_functions hstage hf)
  have hbody : Statement.allFaults v stage.body = Statement.allFaults v' stage.body :=
    Statement.allFaults_congr _ (Valuation.agreeOn_append.mp (h.agreeOn_stage hstage)).2
  simp only [StageInput.faults, StageInput.functions, hbody]
  rw [hfunctions]
  congr 3

/-- **The same code for indistinguishable variants**, or the same reasons why there is
none, as long as layout and pipeline state are the same. -/
theorem render_eq :
    render { unit := u, stage, layout, pipeline, values := v }
      = render { unit := u, stage, layout, pipeline, values := v' } := by
  simp only [render, h.text_eq layout pipeline hstage, h.faults_eq layout pipeline hstage]

end ShaderUnit.Indistinguishable

end ShaderVariants
