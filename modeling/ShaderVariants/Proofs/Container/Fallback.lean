import Mathlib
import ShaderVariants.Proofs.Container.Caching

/-!
# Falling back from file to file

Lookup sets are joined in a row: each falls back on the next.  A lookup goes along the row
until a file does not miss what is looked for, and what that file makes of it is the answer,
be it a variant or an error.  No file in front of it or behind it changes.

What a miss is differs with what is looked for.  A file misses a key if it has no variant for
it, whether or not it lists the shader; it misses the source text of a shader also if it lists
the shader without one.

## Main definitions

* `LookupSet.joined` — sets joined in a row.
* `OpenFile.Misses` — the file has no variant of a key.
* `OpenFile.Keeps` — the file has kept a variant that it gave, and is otherwise the same.
* `LookupSet.FallsThrough` — how a set answers that looks through files in order.

## Main results

* `OpenFile.load_cases` — a file misses a key, gives a variant, or fails.
* `LookupSet.tryFiles_append` — files that miss a key are passed over.
* `LookupSet.fallsThrough_joined` — **joined sets answer as the first of them that does not
  miss**, whatever they have read before.
-/

namespace ShaderVariants

/-! ### One file -/

namespace OpenFile

variable {o o' : OpenFile} {key : VariantKey}

/-- The file has no variant of the key, and has not read one. -/
def Misses (o : OpenFile) (key : VariantKey) : Prop :=
  o.loaded.lookup key = none ∧ o.file.entryOf? key = none

/-- The file has given a variant of the key: it is what it was, except that it has kept the
variant if it had not before, and maybe its programs. -/
structure Keeps (key : VariantKey) (l : Loaded) (o o' : OpenFile) : Prop where
  file : o'.file = o.file
  number : o'.number = o.number
  generation : o'.generation = o.generation
  loaded : o'.loaded = o.loaded ∧ o.loaded.lookup key = some l ∨
    o'.loaded = o.loaded ++ [(key, l)] ∧ o.loaded.lookup key = none

/-- Reading programs changes no more than what is kept of programs. -/
theorem loadPrograms_eq {place : ℕ} {programs : List UInt8 × List UInt8}
    (h : o.loadPrograms place = .ok (programs, o')) :
    ∃ cached, o' = { o with programs := cached } := by
  unfold loadPrograms at h
  cases hlook : o.programs.lookup place with
  | some found =>
    rw [hlook] at h
    cases h
    exact ⟨_, rfl⟩
  | none =>
    rw [hlook] at h
    cases hread : o.file.programsAt place with
    | error reason =>
      simp only [hread] at h
      cases h
    | ok new =>
      simp only [hread] at h
      cases h
      exact ⟨_, rfl⟩

/-- A variant that has not been read before is kept if it can be read. -/
theorem loadEntry_keeps {hash : UInt32} {e : IndexEntry} {l : Loaded}
    (hnew : o.loaded.lookup ⟨hash, e.optionWord⟩ = none)
    (h : o.loadEntry hash e = .ok (l, o')) : o.Keeps ⟨hash, e.optionWord⟩ l o' := by
  unfold loadEntry at h
  dsimp only at h
  rw [hnew] at h
  cases hbody : o.file.bodyAt e with
  | error reason =>
    rw [hbody] at h
    cases h
  | ok head =>
    rw [hbody] at h
    change (o.loadPrograms head.2 >>= _) = _ at h
    cases hprograms : o.loadPrograms head.2 with
    | error reason =>
      rw [hprograms] at h
      cases h
    | ok read =>
      obtain ⟨programs, o₁⟩ := read
      obtain ⟨cached, rfl⟩ := loadPrograms_eq hprograms
      rw [hprograms] at h
      cases h
      exact ⟨rfl, rfl, rfl, .inr ⟨rfl, hnew⟩⟩

/-- **A file misses a key, gives a variant and keeps it, or fails**; only if it misses the key
is the answer that there is none. -/
theorem load_cases (o : OpenFile) (key : VariantKey) :
    (o.Misses key ∧ o.load key = .ok (none, o)) ∨
      (¬ o.Misses key ∧ ∃ l o', o.load key = .ok (some l, o') ∧ Keeps key l o o') ∨
      (¬ o.Misses key ∧ ∃ reason, o.load key = .error reason) := by
  unfold load
  rw [SetFile.bind_position_eq]
  cases hlook : o.loaded.lookup key with
  | some l =>
    have hhit : ¬ o.Misses key := fun h => by simp [h.1] at hlook
    exact .inr (.inl ⟨hhit, l, o, rfl, rfl, rfl, rfl, .inl ⟨rfl, hlook⟩⟩)
  | none =>
    cases hentry : o.file.entryOf? key with
    | none => exact .inl ⟨⟨hlook, hentry⟩, rfl⟩
    | some e =>
      have hhit : ¬ o.Misses key := fun h => by simp [h.2] at hentry
      have hkey : (⟨key.sourceHash, e.optionWord⟩ : VariantKey) = key := by
        rw [SetFile.optionWord_of_entryOf? hentry]
      dsimp only
      cases hload : o.loadEntry key.sourceHash e with
      | error reason => exact .inr (.inr ⟨hhit, reason, rfl⟩)
      | ok read =>
        obtain ⟨l, o'⟩ := read
        have hkeeps := loadEntry_keeps (hkey.symm ▸ hlook) hload
        exact .inr (.inl ⟨hhit, l, o', rfl, hkey ▸ hkeeps⟩)

/-- A file misses each key that it does not list, whether it lists the shader or not. -/
theorem misses_of_notMem_keysOf (hnew : o.loaded.lookup key = none)
    (h : key ∉ o.keysOf key.sourceHash) : o.Misses key := by
  refine ⟨hnew, Option.eq_none_iff_forall_ne_some.mpr fun e he => h ?_⟩
  obtain ⟨i, hposition, hfind⟩ := Option.bind_eq_some_iff.mp he
  obtain ⟨hmem, hword⟩ := SetFile.mem_of_findEntry hfind
  have hposition' : o.position? key.sourceHash = some i := hposition
  rw [keysOf, hposition']
  exact List.mem_map.mpr ⟨e, hmem, by rw [hword]⟩

/-- With faithful caches, the misses are those of the file just opened. -/
theorem Faithful.misses_iff {f : SetFile} (h : Faithful f o) (key : VariantKey) :
    o.Misses key ↔ f.readKey key = .ok none := by
  rcases load_cases o key with ⟨hmiss, hload⟩ | ⟨hhit, l, o', hload, -⟩ | ⟨hhit, reason, hload⟩
  all_goals rcases h.load key with ⟨found, o₁, hload', hkey, -⟩ | ⟨reason', hload', hkey⟩
  all_goals rw [hload] at hload'; cases hload'
  · exact iff_of_true hmiss hkey
  · exact iff_of_false hhit (by rw [hkey]; exact fun h => nomatch h)
  · exact iff_of_false hhit (by rw [hkey]; exact fun h => nomatch h)

end OpenFile

namespace LookupSet

/-! ### Files in a row -/

variable {key : VariantKey} {front back files : List OpenFile} {o o' : OpenFile}

/-- Files that miss the key are passed over, and stay as they are. -/
theorem tryFiles_append (h : ∀ u ∈ front, u.Misses key) :
    tryFiles key (front ++ files) =
      (front ++ (tryFiles key files).1, (tryFiles key files).2) := by
  induction front with
  | nil => rfl
  | cons u rest ih =>
    have hrest := ih fun v hv => h v (List.mem_cons_of_mem _ hv)
    rcases u.load_cases key with ⟨-, hload⟩ | ⟨hhit, -⟩ | ⟨hhit, -⟩
    · rw [List.cons_append, tryFiles, hload]
      dsimp only
      rw [hrest]
      rfl
    · exact absurd (h u List.mem_cons_self) hhit
    · exact absurd (h u List.mem_cons_self) hhit

theorem tryFiles_of_misses (h : ∀ u ∈ files, u.Misses key) :
    tryFiles key files = (files, .ok none) := by
  have happend : tryFiles key (files ++ []) = _ := tryFiles_append h
  rwa [List.append_nil, tryFiles, List.append_nil] at happend

theorem tryFiles_of_load {l : Loaded} (h : o.load key = .ok (some l, o')) :
    tryFiles key (o :: back) = (o' :: back, .ok (some l)) := by
  rw [tryFiles, h]

theorem tryFiles_of_load_error {reason : DecodeError} (h : o.load key = .error reason) :
    tryFiles key (o :: back) = (o :: back, .error reason) := by
  rw [tryFiles, h]

/-- The files after a lookup are those that the row of files becomes. -/
theorem tryGet_eq (s : LookupSet) (key : VariantKey) :
    (s.tryGet key).1.files = (tryFiles key s.files).1 ∧
      (s.tryGet key).2 = (tryFiles key s.files).2 := by
  have hne : (tryFiles key s.files).1 ≠ [] := by
    unfold files
    rcases s.own.load_cases key with ⟨-, hload⟩ | ⟨-, l, o', hload, -⟩ | ⟨-, reason, hload⟩
    · rw [tryFiles, hload]
      exact List.cons_ne_nil _ _
    · rw [tryFiles_of_load hload]
      exact List.cons_ne_nil _ _
    · rw [tryFiles_of_load_error hload]
      exact List.cons_ne_nil _ _
  unfold tryGet
  rcases htry : tryFiles key s.files with ⟨_ | ⟨own, fallbacks⟩, result⟩
  · exact absurd (congrArg (·.1) htry) hne
  · exact ⟨rfl, rfl⟩

/-! ### Joined sets -/

/-- Sets in a row, each of which falls back on the next, and the last on nothing. -/
def joined (s : LookupSet) : List LookupSet → LookupSet
  | [] => s.withoutFallback
  | t :: rest => s.withFallback (joined t rest)

/-- The files of sets in a row are their own ones. -/
theorem files_joined (rest : List LookupSet) : ∀ s : LookupSet,
    (joined s rest).files = (s :: rest).map (·.own) := by
  induction rest with
  | nil => exact fun s => rfl
  | cons t rest ih =>
    intro s
    rw [joined, List.map_cons, ← ih t]
    rfl

/-- The set looks through the files in order, and answers as the first that does not miss. -/
structure FallsThrough (s : LookupSet) (files : List OpenFile) : Prop where
  /-- Without the key in any file there is no variant, and nothing changes. -/
  missed : ∀ key, (∀ o ∈ files, o.Misses key) → (s.tryGet key).1.files = files ∧
    (s.tryGet key).2 = .ok none
  /-- The first file that does not miss the key gives the answer that it gives for itself, a
  variant or an error, and keeps the variant. -/
  answered : ∀ key front o back, files = front ++ o :: back → (∀ u ∈ front, u.Misses key) →
    ¬ o.Misses key → ∃ o', (s.tryGet key).1.files = front ++ o' :: back ∧
      ({ own := o } : LookupSet).tryGet key = ({ own := o' }, (s.tryGet key).2) ∧
      ((∃ l, (s.tryGet key).2 = .ok (some l) ∧ o.Keeps key l o') ∨
        ∃ reason, (s.tryGet key).2 = .error reason ∧ o' = o)
  /-- As long as a file remembers only what its bytes say, it misses what these do not have. -/
  misses_iff : ∀ o ∈ files, ∀ f, OpenFile.Faithful f o → ∀ key,
    o.Misses key ↔ f.readKey key = .ok none
  /-- A file misses what it does not list, also if it lists the shader. -/
  unlisted : ∀ o ∈ files, ∀ key, o.loaded.lookup key = none →
    key ∉ o.keysOf key.sourceHash → o.Misses key
  info : ∀ hash info, s.info? hash = some info ↔ ∃ front o back, files = front ++ o :: back ∧
    (∃ shader, o.shader? hash = some shader ∧ shader.info = info) ∧
    ∀ u ∈ front, u.shader? hash = none
  infoNamed : ∀ name info, s.infoNamed? name = some info ↔ ∃ front o back,
    files = front ++ o :: back ∧
      (∃ shader, o.file.shaders.find? (·.name = name) = some shader ∧ shader.info = info) ∧
      ∀ u ∈ front, ∀ shader ∈ u.file.shaders, shader.name ≠ name
  /-- A shader without a source text is passed over. -/
  source : ∀ hash text, s.source? hash = some text ↔ ∃ front o back,
    files = front ++ o :: back ∧
      (∃ shader, o.shader? hash = some shader ∧ shader.source = some text) ∧
      ∀ u ∈ front, ∀ shader, u.shader? hash = some shader → shader.source = none

/-- A set looks through its files. -/
theorem fallsThrough_files (s : LookupSet) : s.FallsThrough s.files where
  missed := by
    intro key h
    obtain ⟨hfiles, hresult⟩ := s.tryGet_eq key
    rw [hfiles, hresult, tryFiles_of_misses h]
    exact ⟨rfl, rfl⟩
  answered := by
    intro key front o back hs hfront hhit
    obtain ⟨hfiles, hresult⟩ := s.tryGet_eq key
    rw [hs, tryFiles_append hfront] at hfiles hresult
    rcases o.load_cases key with ⟨hmiss, -⟩ | ⟨-, l, o', hload, hkeeps⟩ | ⟨-, reason, hload⟩
    · exact absurd hmiss hhit
    · rw [tryFiles_of_load hload] at hfiles hresult
      exact ⟨o', hfiles, hresult ▸ tryGet_of_load hload, .inl ⟨l, hresult, hkeeps⟩⟩
    · rw [tryFiles_of_load_error hload] at hfiles hresult
      exact ⟨o, hfiles, hresult ▸ tryGet_of_load_error hload, .inr ⟨reason, hresult, rfl⟩⟩
  misses_iff o _ f h key := h.misses_iff key
  unlisted o _ key hnew h := OpenFile.misses_of_notMem_keysOf hnew h
  info hash info := by
    simp only [info?, List.findSome?_eq_some_iff, Option.map_eq_some_iff, Option.map_eq_none_iff]
  infoNamed name info := by
    simp only [infoNamed?, List.findSome?_eq_some_iff, Option.map_eq_some_iff,
      Option.map_eq_none_iff, List.find?_eq_none, decide_eq_true_eq, ne_eq]
  source hash text := by
    simp only [source?, List.findSome?_eq_some_iff, Option.bind_eq_some_iff,
      Option.bind_eq_none_iff]

/-- **Sets in a row answer as the first that does not miss**, whatever each of them has read
before; only that one reads anything. -/
theorem fallsThrough_joined (s : LookupSet) (rest : List LookupSet) :
    (joined s rest).FallsThrough ((s :: rest).map (·.own)) :=
  files_joined rest s ▸ fallsThrough_files (joined s rest)

end LookupSet

end ShaderVariants
