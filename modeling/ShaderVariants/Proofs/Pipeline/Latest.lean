import Mathlib
import ShaderVariants.Pipeline.Override

/-!
# What is left of several overrides

Overrides are applied one after the other, each to what the ones before it have left.  What comes
of them can be said of every part of a state by itself, without the states in between: the last
override that sets the part decides, and where none sets it, the state before all of them.

## Main definitions

* `latest` — what the last of several things says that says anything.
* `Overlaid` — a list in which each place is filled by the last list that is long enough.
* `StencilState.Follows`, `PipelineState.Follows` — what is left of several overrides, part by
  part.

## Main results

* `getElem?_overlay`, `length_overlay` — one list on top of another one.
* `PipelineState.part_overrideAll` — a part that every override sets or leaves alone.
* `PipelineState.Follows.unique` — the parts determine the state.
* `PipelineState.overrideAll_latest` — **the last override decides**, so an override that is
  applied twice in a row has no more effect than once.
-/

namespace ShaderVariants

/-! ### The last one that says anything -/

section

variable {α β : Type}

/-- What the last of `as` says that says anything. -/
def latest (f : α → Option β) (as : List α) : Option β := as.reverse.findSome? f

@[simp] theorem latest_nil (f : α → Option β) : latest f [] = none := rfl

theorem latest_append (f : α → Option β) (as bs : List α) :
    latest f (as ++ bs) = (latest f bs).or (latest f as) := by
  rw [latest, List.reverse_append, List.findSome?_append, latest, latest]

theorem latest_cons (f : α → Option β) (a : α) (as : List α) :
    latest f (a :: as) = (latest f as).or (f a) := by
  rw [← List.singleton_append, latest_append]
  cases hf : f a <;> simp [latest, hf]

/-! ### Lists on top of each other -/

/-- A place of the upper list comes first. -/
theorem getElem?_overlay (base top : List α) (i : ℕ) :
    (overlay base top)[i]? = top[i]?.or base[i]? := by
  induction top generalizing base i with
  | nil => rw [overlay, List.getElem?_nil, Option.none_or]
  | cons x top ih =>
    cases i with
    | zero => rfl
    | succ i => rw [overlay, List.getElem?_cons_succ, List.getElem?_cons_succ, ih,
        List.getElem?_tail]

/-- A list that is laid on top twice covers itself. -/
theorem overlay_overlay_self (base top : List α) :
    overlay (overlay base top) top = overlay base top := by
  refine List.ext_getElem? fun i => ?_
  rw [getElem?_overlay, getElem?_overlay, ← Option.or_assoc, Option.or_self]

theorem length_overlay (base top : List α) :
    (overlay base top).length = max base.length top.length := by
  induction top generalizing base with
  | nil => rw [overlay, List.length_nil, Nat.max_zero]
  | cons x top ih =>
    rw [overlay, List.length_cons, ih, List.length_tail, List.length_cons]
    omega

/-- Each place of the result is filled by the last of the upper lists that is long enough, or else
by the lowest list; the longest of all lists fills the last place. -/
structure Overlaid (base : List α) (tops : List (List α)) (result : List α) : Prop where
  getElem? : ∀ i : ℕ, result[i]? = (latest (·[i]?) tops).or base[i]?
  length : (base.length :: tops.map List.length).max? = some result.length

/-- The places determine the list. -/
theorem Overlaid.unique {base result result' : List α} {tops : List (List α)}
    (h : Overlaid base tops result) (h' : Overlaid base tops result') : result = result' :=
  List.ext_getElem? fun i => (h.getElem? i).trans (h'.getElem? i).symm

/-- Lists that are laid on top of each other one by one. -/
theorem overlaid_foldl (tops : List (List α)) (base : List α) :
    Overlaid base tops (tops.foldl overlay base) := by
  induction tops generalizing base with
  | nil => exact ⟨fun i => rfl, rfl⟩
  | cons top tops ih =>
    obtain ⟨hget, hlength⟩ := ih (overlay base top)
    constructor
    · intro i
      rw [List.foldl_cons, hget, getElem?_overlay, latest_cons, Option.or_assoc]
    · rw [List.foldl_cons, ← hlength, length_overlay, List.map_cons, List.max?_cons',
        List.max?_cons', List.foldl_cons]

end

/-! ### States -/

/-- Each component of the test of a face is set by the last override that sets it, for the face
or for both faces; the value for the face comes first. -/
structure StencilState.Follows (s : StencilState) (face both : PipelineOverride → StencilOverride)
    (os : List PipelineOverride) (result : StencilState) : Prop where
  comparison : result.comparison =
    (latest (fun o => (face o).comparison.or (both o).comparison) os).getD s.comparison
  pass : result.pass = (latest (fun o => (face o).pass.or (both o).pass) os).getD s.pass
  fail : result.fail = (latest (fun o => (face o).fail.or (both o).fail) os).getD s.fail
  depthFail : result.depthFail =
    (latest (fun o => (face o).depthFail.or (both o).depthFail) os).getD s.depthFail

theorem StencilState.Follows.unique {s t t' : StencilState}
    {face both : PipelineOverride → StencilOverride} {os : List PipelineOverride}
    (h : s.Follows face both os t) (h' : s.Follows face both os t') : t = t' := by
  obtain ⟨hcomparison, hpass, hfail, hdepthFail⟩ := h
  obtain ⟨hcomparison', hpass', hfail', hdepthFail'⟩ := h'
  rw [StencilState.mk.injEq]
  exact ⟨hcomparison.trans hcomparison'.symm, hpass.trans hpass'.symm, hfail.trans hfail'.symm,
    hdepthFail.trans hdepthFail'.symm⟩

/-- Each part of the result is set by the last override that sets it, or else as in `s`. -/
structure PipelineState.Follows (s : PipelineState) (os : List PipelineOverride)
    (result : PipelineState) : Prop where
  coverageToAlpha : result.coverageToAlpha = (latest (·.coverageToAlpha) os).getD s.coverageToAlpha
  blendFactor : result.blendFactor = (latest (·.blendFactor) os).getD s.blendFactor
  blendAttachments :
    Overlaid s.blendAttachments (os.map (·.blendAttachments)) result.blendAttachments
  depthTest : result.depthTest = (latest (·.depthTest) os).getD s.depthTest
  depthWrite : result.depthWrite = (latest (·.depthWrite) os).getD s.depthWrite
  stencilTest : result.stencilTest = (latest (·.stencilTest) os).getD s.stencilTest
  stencilReadMask : result.stencilReadMask = (latest (·.stencilReadMask) os).getD s.stencilReadMask
  stencilWriteMask :
    result.stencilWriteMask = (latest (·.stencilWriteMask) os).getD s.stencilWriteMask
  stencilReference :
    result.stencilReference = (latest (·.stencilReference) os).getD s.stencilReference
  stencilFront :
    s.stencilFront.Follows (·.stencilFront) (·.stencil) os result.stencilFront
  stencilBack :
    s.stencilBack.Follows (·.stencilBack) (·.stencil) os result.stencilBack
  cullMode : result.cullMode = (latest (·.cullMode) os).getD s.cullMode
  fillMode : result.fillMode = (latest (·.fillMode) os).getD s.fillMode
  frontFace : result.frontFace = (latest (·.frontFace) os).getD s.frontFace
  depthClip : result.depthClip = (latest (·.depthClip) os).getD s.depthClip
  scissorTest : result.scissorTest = (latest (·.scissorTest) os).getD s.scissorTest
  primitiveTopology :
    result.primitiveTopology = (latest (·.primitiveTopology) os).getD s.primitiveTopology
  depthOutput : result.depthOutput = (latest (·.depthOutput) os).or s.depthOutput
  colorOutputs : Overlaid s.colorOutputs (os.map (·.colorOutputs)) result.colorOutputs
  outputSamples : result.outputSamples = (latest (·.outputSamples) os).getD s.outputSamples

namespace PipelineState

variable {α : Type}

theorem overrideAll_cons (s : PipelineState) (o : PipelineOverride) (os : List PipelineOverride) :
    s.overrideAll (o :: os) = (s.override o).overrideAll os := rfl

/-- A part of the state that every override sets or leaves alone is set by the last override that
sets it. -/
theorem part_overrideAll (part : PipelineState → α) (set : PipelineOverride → Option α)
    (h : ∀ s o, part (s.override o) = (set o).getD (part s)) (os : List PipelineOverride)
    (s : PipelineState) : part (s.overrideAll os) = (latest set os).getD (part s) := by
  induction os generalizing s with
  | nil => rfl
  | cons o os ih => rw [overrideAll_cons, ih, h, latest_cons, Option.getD_or]

/-- A part that may be missing stays what it was where no override has one. -/
theorem optionalPart_overrideAll (part : PipelineState → Option α)
    (set : PipelineOverride → Option α) (h : ∀ s o, part (s.override o) = (set o).or (part s))
    (os : List PipelineOverride) (s : PipelineState) :
    part (s.overrideAll os) = (latest set os).or (part s) := by
  induction os generalizing s with
  | nil => rfl
  | cons o os ih => rw [overrideAll_cons, ih, h, latest_cons, Option.or_assoc]

/-- Lists are laid on top of each other. -/
theorem listPart_overrideAll (part : PipelineState → List α) (top : PipelineOverride → List α)
    (h : ∀ s o, part (s.override o) = overlay (part s) (top o)) (os : List PipelineOverride)
    (s : PipelineState) : Overlaid (part s) (os.map top) (part (s.overrideAll os)) := by
  have hfold : part (s.overrideAll os) = (os.map top).foldl overlay (part s) := by
    induction os generalizing s with
    | nil => rfl
    | cons o os ih => rw [overrideAll_cons, ih, h, List.map_cons, List.foldl_cons]
  rw [hfold]
  exact overlaid_foldl _ _

/-- The components of a stencil test are parts of the state. -/
theorem stencil_overrideAll (test : PipelineState → StencilState)
    (face both : PipelineOverride → StencilOverride)
    (h : ∀ s o, test (s.override o) = (test s).override (face o) (both o))
    (os : List PipelineOverride) (s : PipelineState) :
    (test s).Follows face both os (test (s.overrideAll os)) where
  comparison := part_overrideAll (fun s => (test s).comparison)
    (fun o => (face o).comparison.or (both o).comparison)
    (fun s o => by simp only [h, StencilState.override, Option.orElse_eq_orElse,
      Option.orElse_eq_or]) os s
  pass := part_overrideAll (fun s => (test s).pass) (fun o => (face o).pass.or (both o).pass)
    (fun s o => by simp only [h, StencilState.override, Option.orElse_eq_orElse,
      Option.orElse_eq_or]) os s
  fail := part_overrideAll (fun s => (test s).fail) (fun o => (face o).fail.or (both o).fail)
    (fun s o => by simp only [h, StencilState.override, Option.orElse_eq_orElse,
      Option.orElse_eq_or]) os s
  depthFail := part_overrideAll (fun s => (test s).depthFail)
    (fun o => (face o).depthFail.or (both o).depthFail)
    (fun s o => by simp only [h, StencilState.override, Option.orElse_eq_orElse,
      Option.orElse_eq_or]) os s

/-- What overrides leave of a state. -/
theorem follows_overrideAll (os : List PipelineOverride) (s : PipelineState) :
    s.Follows os (s.overrideAll os) where
  coverageToAlpha := part_overrideAll (·.coverageToAlpha) _ (fun _ _ => rfl) os s
  blendFactor := part_overrideAll (·.blendFactor) _ (fun _ _ => rfl) os s
  blendAttachments := listPart_overrideAll (·.blendAttachments) _ (fun _ _ => rfl) os s
  depthTest := part_overrideAll (·.depthTest) _ (fun _ _ => rfl) os s
  depthWrite := part_overrideAll (·.depthWrite) _ (fun _ _ => rfl) os s
  stencilTest := part_overrideAll (·.stencilTest) _ (fun _ _ => rfl) os s
  stencilReadMask := part_overrideAll (·.stencilReadMask) _ (fun _ _ => rfl) os s
  stencilWriteMask := part_overrideAll (·.stencilWriteMask) _ (fun _ _ => rfl) os s
  stencilReference := part_overrideAll (·.stencilReference) _ (fun _ _ => rfl) os s
  stencilFront := stencil_overrideAll (·.stencilFront) _ _ (fun _ _ => rfl) os s
  stencilBack := stencil_overrideAll (·.stencilBack) _ _ (fun _ _ => rfl) os s
  cullMode := part_overrideAll (·.cullMode) _ (fun _ _ => rfl) os s
  fillMode := part_overrideAll (·.fillMode) _ (fun _ _ => rfl) os s
  frontFace := part_overrideAll (·.frontFace) _ (fun _ _ => rfl) os s
  depthClip := part_overrideAll (·.depthClip) _ (fun _ _ => rfl) os s
  scissorTest := part_overrideAll (·.scissorTest) _ (fun _ _ => rfl) os s
  primitiveTopology := part_overrideAll (·.primitiveTopology) _ (fun _ _ => rfl) os s
  depthOutput := optionalPart_overrideAll (·.depthOutput) _
    (fun _ _ => Option.orElse_eq_or) os s
  colorOutputs := listPart_overrideAll (·.colorOutputs) _ (fun _ _ => rfl) os s
  outputSamples := part_overrideAll (·.outputSamples) _ (fun _ _ => rfl) os s

/-- The parts determine the state. -/
theorem Follows.unique {s t t' : PipelineState} {os : List PipelineOverride}
    (h : s.Follows os t) (h' : s.Follows os t') : t = t' := by
  rw [PipelineState.mk.injEq]
  exact ⟨h.coverageToAlpha.trans h'.coverageToAlpha.symm, h.blendFactor.trans h'.blendFactor.symm,
    h.blendAttachments.unique h'.blendAttachments, h.depthTest.trans h'.depthTest.symm,
    h.depthWrite.trans h'.depthWrite.symm, h.stencilTest.trans h'.stencilTest.symm,
    h.stencilReadMask.trans h'.stencilReadMask.symm,
    h.stencilWriteMask.trans h'.stencilWriteMask.symm,
    h.stencilReference.trans h'.stencilReference.symm, h.stencilFront.unique h'.stencilFront,
    h.stencilBack.unique h'.stencilBack, h.cullMode.trans h'.cullMode.symm,
    h.fillMode.trans h'.fillMode.symm, h.frontFace.trans h'.frontFace.symm,
    h.depthClip.trans h'.depthClip.symm, h.scissorTest.trans h'.scissorTest.symm,
    h.primitiveTopology.trans h'.primitiveTopology.symm, h.depthOutput.trans h'.depthOutput.symm,
    h.colorOutputs.unique h'.colorOutputs, h.outputSamples.trans h'.outputSamples.symm⟩

/-- An override has no more effect twice than once. -/
theorem override_override_self (s : PipelineState) (o : PipelineOverride) :
    (s.override o).override o = s.override o := by
  simp only [override, StencilState.override, overlay_overlay_self, Option.orElse_eq_orElse,
    Option.orElse_eq_or, ← Option.getD_or, ← Option.or_assoc, Option.or_self]

/-- **The last override decides.**  Applied in order, overrides leave the state of which every
part is as the last override that sets it says, or else as it was, and no other state; and it
makes no difference whether an override is applied once or twice in a row. -/
theorem overrideAll_latest (s : PipelineState) (os : List PipelineOverride) :
    (∀ t, s.Follows os t ↔ t = s.overrideAll os) ∧
      ∀ o later, s.overrideAll (os ++ o :: o :: later) = s.overrideAll (os ++ o :: later) := by
  refine ⟨fun t => ⟨fun h => h.unique (follows_overrideAll os s), ?_⟩, fun o later => ?_⟩
  · rintro rfl
    exact follows_overrideAll os s
  · rw [overrideAll, List.foldl_append, List.foldl_cons, List.foldl_cons, override_override_self,
      overrideAll, List.foldl_append, List.foldl_cons]

end PipelineState

end ShaderVariants
