import Mathlib
import ShaderVariants.Compile.Build
import ShaderVariants.Proofs.Compile.Outcome
import ShaderVariants.Proofs.Container.Writing

/-!
# A build as one run of the writer

A build goes through the groups of variants that share their programs.  It compiles the
first variant of a group by itself and the others on its programs, and stores each of them
at once.  All in all it attempts every variant once, in the order of the groups, and its file
is that of a writer to which the variants that came of the attempts were written.

## Main definitions

* `VariantCompiler.attemptFor` — how a build compiles the variant of a word.
* `AnalyzedShader.attempt`, `AnalyzedShader.attempts` — what a build makes of a word and of
  all words of a shader.
* `AnalyzedShader.Buildable` — a source that passed its analysis.
* `Progress.add` — a build after further attempts.

## Main results

* `Progress.runJob_eq`, `runBuild_eq` — **a job and a build in terms of their attempts.**
-/

namespace ShaderVariants

/-! ### Attempts -/

namespace VariantCompiler

/-- How a build compiles the variant of a word: the first word of a group by itself, the
others on the programs of the first. -/
def attemptFor (c : VariantCompiler) (w : OptionWord) : Attempt :=
  if w = w.clear c.info.invarianceMask then c.compileAt w none
  else
    match (c.compileAt (w.clear c.info.invarianceMask) none).variant with
    | none => { variant := none }
    | some base => c.compileAt w (some base)

variable {c : VariantCompiler} {w first : OptionWord}

theorem attemptFor_first (h : w.clear c.info.invarianceMask = w) :
    c.attemptFor w = c.compileAt w none := if_pos h.symm

theorem attemptFor_other (h : w.clear c.info.invarianceMask = first) (hne : w ≠ first) :
    c.attemptFor w = match (c.compileAt first none).variant with
      | none => { variant := none }
      | some base => c.compileAt w (some base) := by
  unfold attemptFor
  rw [h, if_neg hne]

end VariantCompiler

namespace AnalyzedShader

/-- The words of a shader in the order of a build. -/
def buildWords (s : AnalyzedShader) : List OptionWord :=
  s.programVariants.words.flatMap fun p => (s.invariantsFor p).words

/-- What a build makes of a word. -/
def attempt (s : AnalyzedShader) (downstream : Downstream) (showSource : Bool)
    (w : OptionWord) : Attempt :=
  (s.compiler downstream showSource).attemptFor w

/-- Everything a build attempts for a shader. -/
def attempts (s : AnalyzedShader) (downstream : Downstream) (showSource : Bool) : List Attempt :=
  s.buildWords.map (s.attempt downstream showSource)

end AnalyzedShader

/-- The variants that came of attempts. -/
def builtVariants (attempts : List Attempt) : List Variant := attempts.filterMap (·.variant)

/-- Everything that was said during attempts. -/
def allDiagnostics (attempts : List Attempt) : List Diagnostic := attempts.flatMap (·.diagnostics)

theorem builtVariants_append (as bs : List Attempt) :
    builtVariants (as ++ bs) = builtVariants as ++ builtVariants bs := List.filterMap_append

theorem allDiagnostics_append (as bs : List Attempt) :
    allDiagnostics (as ++ bs) = allDiagnostics as ++ allDiagnostics bs := List.flatMap_append

/-! ### Writing in steps -/

namespace Writer

theorem writeAll_append (vs us : List Variant) : ∀ w : Writer,
    w.writeAll (vs ++ us) = (w.writeAll vs).bind (·.writeAll us) := by
  induction vs with
  | nil => exact fun _ => rfl
  | cons v rest ih =>
    intro w
    rw [List.cons_append, writeAll, writeAll]
    split
    · exact ih _
    · rfl

theorem foldlM_addShader {α : Type} (f : α → ShaderEntry) : ∀ (shaders : List α) (w : Writer),
    shaders.foldlM (fun (w : Writer) s => w.addShader (f s)) w = w.addAll (shaders.map f) := by
  intro shaders
  induction shaders with
  | nil => exact fun _ => rfl
  | cons s rest ih =>
    intro w
    rw [List.foldlM_cons, List.map_cons, addAll]
    cases w.addShader (f s) with
    | error e => rfl
    | ok w => exact ih w

end Writer

namespace Progress

/-! ### Steps of a build -/

/-- A build after further jobs, given by the number of jobs and all their attempts. -/
def add (p : Progress) (jobs : ℕ) (attempts : List Attempt) : Except WriteError Progress :=
  (p.writer.writeAll (builtVariants attempts)).map fun writer =>
    { writer
      diagnostics := p.diagnostics ++ allDiagnostics attempts
      compiled := p.compiled + jobs
      assembled := p.assembled + (builtVariants attempts).length }

theorem add_nil (p : Progress) : p.add 0 [] = .ok p := by
  simp [add, builtVariants, allDiagnostics, Writer.writeAll, Except.map]

theorem add_append (p : Progress) (m n : ℕ) (as bs : List Attempt) :
    p.add (m + n) (as ++ bs) = (p.add m as).bind (·.add n bs) := by
  unfold add
  rw [builtVariants_append, allDiagnostics_append, Writer.writeAll_append]
  cases p.writer.writeAll (builtVariants as) with
  | error e => rfl
  | ok w =>
    simp only [Except.bind, Except.map, List.append_assoc, List.length_append, Nat.add_assoc]

theorem add_cons (p : Progress) (n : ℕ) (a : Attempt) (as : List Attempt) :
    p.add n (a :: as) = (p.add 0 [a]).bind (·.add n as) := by
  have h := p.add_append 0 n [a] as
  rwa [Nat.zero_add] at h

/-- An attempt adds its diagnostics, and its variant to the file. -/
theorem attempt_eq (c : VariantCompiler) (base : Option Variant) (p : Progress) (w : OptionWord) :
    attempt c base p w =
      (p.add 0 [c.compileAt w base]).map fun p => (p, (c.compileAt w base).variant) := by
  unfold attempt add VariantCompiler.compileAt builtVariants allDiagnostics
  dsimp only
  cases hvariant : (c.compile (.ofWord c.unit.options w) base).variant with
  | none => simp [hvariant, Writer.writeAll, Except.map]
  | some v =>
    simp only [store, List.filterMap_cons, hvariant, List.filterMap_nil, Writer.writeAll]
    split <;> simp_all [Except.map]

theorem assemble_eq (c : VariantCompiler) (base : Variant) : ∀ (ws : List OptionWord)
    (p : Progress), assemble c base p ws = p.add 0 (ws.map (c.compileAt · (some base))) := by
  intro ws
  induction ws with
  | nil => exact fun p => (add_nil p).symm
  | cons w rest ih =>
    intro p
    rw [assemble, attempt_eq, List.map_cons,
      p.add_cons 0 _ (rest.map (c.compileAt · (some base)))]
    cases p.add 0 [c.compileAt w (some base)] with
    | error e => rfl
    | ok p => exact ih p

end Progress

/-! ### Groups -/

section Group

variable {s : AnalyzedShader} {p w : OptionWord} {downstream : Downstream} {showSource : Bool}

/-- A source that passed its analysis. -/
structure AnalyzedShader.Buildable (s : AnalyzedShader) : Prop where
  sound : s.isSound = true
  accepted : ∃ u : ShaderUnit, u.Accepted ∧ s.unit = u.markInvariant
  mask : s.info.invarianceMask = invarianceMask s.unit.options

theorem AnalyzedShader.Buildable.of_isSound {name source : String} {u : ShaderUnit}
    (h : (analyze name source u).isSound = true) : (analyze name source u).Buildable :=
  ⟨h, ⟨u, ShaderUnit.Accepted.of_isSound h, rfl⟩, rfl⟩

theorem AnalyzedShader.Buildable.packed (h : s.Buildable) :
    ShaderOption.Packed s.unit.options := by
  obtain ⟨u, hu, heq⟩ := h.accepted
  rw [heq]
  exact hu.packed_options

/-- A group begins with its program variant, which is what clearing gives for all of it. -/
theorem AnalyzedShader.Buildable.exists_others (h : s.Buildable)
    (hp : p ∈ s.programVariants.words) :
    ∃ others, (s.invariantsFor p).words = p :: others ∧ p ∉ others ∧
      p.clear s.info.invarianceMask = p ∧
      ∀ w ∈ (s.invariantsFor p).words, w.clear s.info.invarianceMask = p := by
  have hpacked := h.packed
  have hrange := (mem_program_iff hpacked).mp hp
  have hhead := head?_invariant hpacked hp
  unfold AnalyzedShader.invariantsFor
  rw [h.mask]
  obtain ⟨others, hothers⟩ := List.head?_eq_some_iff.mp hhead
  have hnodup : (VariantSpace.ofOptions s.unit.options .invariant
      (p.clear (invarianceMask s.unit.options))).words.Nodup :=
    VariantSpace.nodup_words (VariantSpace.clean_ofOptions hpacked.apart_fields)
  refine ⟨others, hothers, ?_, hrange.2, fun w hw => ?_⟩
  · rw [hothers] at hnodup
    exact (List.nodup_cons.mp hnodup).1
  · exact ((mem_invariant_iff hpacked hrange.1).mp hw).2.trans hrange.2

theorem filter_ne_of_not_mem {others : List OptionWord} (h : p ∉ others) :
    (p :: others).filter (· != p) = others := by
  rw [List.filter_cons_of_neg (by simp)]
  refine List.filter_eq_self.mpr fun w hw => ?_
  exact bne_iff_ne.mpr fun heq => h (heq ▸ hw)

/-- Without a first variant, nothing comes of the others, and nothing is said about them. -/
theorem builtVariants_blank (ws : List OptionWord) :
    builtVariants (ws.map fun _ => { variant := none }) = [] :=
  List.filterMap_eq_nil_iff.mpr fun a ha => by
    obtain ⟨w, -, rfl⟩ := List.mem_map.mp ha
    rfl

theorem allDiagnostics_blank (ws : List OptionWord) :
    allDiagnostics (ws.map fun _ => { variant := none }) = [] :=
  List.flatMap_eq_nil_iff.mpr fun a ha => by
    obtain ⟨w, -, rfl⟩ := List.mem_map.mp ha
    rfl

/-- **A job in terms of its attempts**, one for each word of its group. -/
theorem Progress.runJob_eq (settings : BuildSettings) (q : Progress) (h : s.Buildable)
    (hp : p ∈ s.programVariants.words) :
    q.runJob settings downstream (s, p) = q.add 1 ((s.invariantsFor p).words.map
      (s.attempt downstream settings.showSource)) := by
  obtain ⟨others, hwords, hnot, hfirst, hclear⟩ := h.exists_others hp
  unfold AnalyzedShader.attempt
  obtain ⟨c, hc⟩ : ∃ c, c = s.compiler downstream settings.showSource := ⟨_, rfl⟩
  have hinfo : c.info = s.info := by
    rw [hc]
    rfl
  have hattempt : c.attemptFor p = c.compileAt p none :=
    VariantCompiler.attemptFor_first (hinfo ▸ hfirst)
  have hother : others.map c.attemptFor = others.map fun w =>
      match (c.compileAt p none).variant with
      | none => { variant := none }
      | some base => c.compileAt w (some base) := by
    refine List.map_congr_left fun w hw => ?_
    have hne : w ≠ p := fun heq => hnot (heq ▸ hw)
    refine VariantCompiler.attemptFor_other ?_ hne
    rw [hinfo, hclear w (hwords ▸ List.mem_cons_of_mem p hw)]
  unfold runJob
  dsimp only
  rw [s.variantCompiler?_of_isSound h.sound, ← hc, hwords, filter_ne_of_not_mem hnot]
  dsimp only
  rw [attempt_eq, List.map_cons, hattempt, hother]
  have hcount : ∀ as, q.add 1 as = { q with compiled := q.compiled + 1 }.add 0 as := fun _ => rfl
  obtain ⟨q₁, hq₁⟩ : ∃ q₁, q₁ = { q with compiled := q.compiled + 1 } := ⟨_, rfl⟩
  rw [hcount, ← hq₁, q₁.add_cons 0 _ (others.map _)]
  cases q₁.add 0 [c.compileAt p none] with
  | error e => rfl
  | ok q =>
    cases (c.compileAt p none).variant with
    | none =>
      change Except.ok q = q.add 0 _
      unfold add
      rw [builtVariants_blank, allDiagnostics_blank]
      simp [Writer.writeAll, Except.map]
    | some base => exact assemble_eq c base others q

end Group

/-! ### The whole build -/

/-- Everything a build attempts. -/
def batchAttempts (settings : BuildSettings) (downstream : Downstream)
    (shaders : List AnalyzedShader) : List Attempt :=
  shaders.flatMap (·.attempts downstream settings.showSource)

/-- The shaders of the file of a build. -/
def batchEntries (settings : BuildSettings) (shaders : List AnalyzedShader) : List ShaderEntry :=
  shaders.map (·.entry settings.embedSource)

section Batch

variable (settings : BuildSettings) (downstream : Downstream)

theorem Progress.foldlM_runJob : ∀ (jobs : List (AnalyzedShader × OptionWord)) (q : Progress),
    (∀ j ∈ jobs, j.1.Buildable ∧ j.2 ∈ j.1.programVariants.words) →
    jobs.foldlM (runJob settings downstream) q = q.add jobs.length (jobs.flatMap fun j =>
      (j.1.invariantsFor j.2).words.map (j.1.attempt downstream settings.showSource)) := by
  intro jobs
  induction jobs with
  | nil => exact fun q _ => (add_nil q).symm
  | cons j rest ih =>
    intro q h
    obtain ⟨hj, hp⟩ := h j List.mem_cons_self
    rw [List.foldlM_cons, List.flatMap_cons, List.length_cons, Nat.add_comm, add_append,
      runJob_eq settings q hj hp]
    cases q.add 1 ((j.1.invariantsFor j.2).words.map
        (j.1.attempt downstream settings.showSource)) with
    | error e => rfl
    | ok q => exact ih q fun k hk => h k (List.mem_cons_of_mem j hk)

theorem flatMap_buildJobs (shaders : List AnalyzedShader) :
    ((buildJobs shaders).flatMap fun j => (j.1.invariantsFor j.2).words.map
      (j.1.attempt downstream settings.showSource)) =
      batchAttempts settings downstream shaders := by
  unfold buildJobs batchAttempts AnalyzedShader.attempts AnalyzedShader.buildWords
  simp only [List.flatMap_assoc, List.flatMap_map, List.map_flatMap]

theorem length_buildJobs (shaders : List AnalyzedShader) :
    (buildJobs shaders).length = (shaders.map (·.programVariants.size)).sum := by
  unfold buildJobs
  simp only [List.length_flatMap, List.length_map, VariantSpace.length_words]

/-- **A build in terms of its attempts**: its file is that of a writer to which the variants
that came of them were written. -/
theorem runBuild_eq {shaders : List AnalyzedShader} (h : ∀ s ∈ shaders, s.Buildable) :
    runBuild settings downstream shaders =
      (Writer.run (batchEntries settings shaders)
        (builtVariants (batchAttempts settings downstream shaders))).bind fun writer =>
      writer.finish.map fun file =>
        ({ writer
           diagnostics := allDiagnostics (batchAttempts settings downstream shaders)
           compiled := (shaders.map (·.programVariants.size)).sum
           assembled := (builtVariants (batchAttempts settings downstream shaders)).length },
          file) := by
  have hjobs : ∀ j ∈ buildJobs shaders, j.1.Buildable ∧ j.2 ∈ j.1.programVariants.words := by
    intro j hj
    obtain ⟨s, hs, hj⟩ := List.mem_flatMap.mp hj
    obtain ⟨p, hp, rfl⟩ := List.mem_map.mp hj
    exact ⟨h s hs, hp⟩
  have hadd : shaders.foldlM (fun (w : Writer) s => w.addShader (s.entry settings.embedSource)) {}
      = Writer.addAll {} (batchEntries settings shaders) := Writer.foldlM_addShader _ shaders {}
  unfold runBuild Writer.run
  rw [hadd]
  change (Writer.addAll {} (batchEntries settings shaders)).bind _ = _
  cases Writer.addAll {} (batchEntries settings shaders) with
  | error e => rfl
  | ok w =>
    simp only [Except.bind, Progress.foldlM_runJob settings downstream _ _ hjobs,
      flatMap_buildJobs, length_buildJobs, Progress.add]
    cases w.writeAll (builtVariants (batchAttempts settings downstream shaders)) with
    | error e => rfl
    | ok w =>
      simp only [Except.map, List.nil_append, Nat.zero_add]
      change w.finish.bind _ = _
      cases w.finish <;> rfl

end Batch

end ShaderVariants
