import Mathlib
import ShaderVariants.Listing
import ShaderVariants.Proofs.Container.Fallback
import ShaderVariants.Proofs.Container.Lookup
import ShaderVariants.Proofs.Options.VariantName

/-!
# What an opened file gives

An opened file gives each variant as it is read from the bytes, together with the place of its
programs.  What it gives is marked with the number of the file and with the number of times it
was cleared, and neither changes as long as variants are only looked up.  So two variants that
it gives one after the other share their programs exactly if the places are the same.

## Main definitions

* `SetFile.readAt?` — what the bytes say of a key, with the place of the programs.
* `OpenFile.Exact` — all that an opened file remembers is what it would give now.

## Main results

* `OpenFile.Exact.load` — a lookup gives what the bytes say, and remembers it.
* `OpenFile.Exact.of_reachable` — **whatever was looked up before**, what is remembered is exact.
* `LookupSet.getNamed_of_readAt?` — many keys, one after the other.
-/

namespace ShaderVariants

namespace SetFile

variable {f : SetFile} {hash : UInt32} {e : IndexEntry}

/-- The variant of a key and the place of its programs, if it is there and can be read. -/
def readAt? (f : SetFile) (key : VariantKey) : Option ReadVariant :=
  (f.entryOf? key).bind fun e => (f.readVariant key.sourceHash e).toOption

theorem readAt?_of_ok {read : ReadVariant} (hentry : f.entryOf? ⟨hash, e.optionWord⟩ = some e)
    (hread : f.readVariant hash e = .ok read) : f.readAt? ⟨hash, e.optionWord⟩ = some read := by
  rw [readAt?, hentry, Option.bind_some, hread]
  rfl

theorem readAt?_of_error {reason : DecodeError}
    (hentry : f.entryOf? ⟨hash, e.optionWord⟩ = some e)
    (hread : f.readVariant hash e = .error reason) : f.readAt? ⟨hash, e.optionWord⟩ = none := by
  rw [readAt?, hentry, Option.bind_some, hread]
  rfl

/-- What is found under a key has the key. -/
theorem key_of_readAt? {key : VariantKey} {read : ReadVariant} (h : f.readAt? key = some read) :
    read.variant.key = key := by
  obtain ⟨e, hentry, hread⟩ := Option.bind_eq_some_iff.mp h
  cases hok : f.readVariant key.sourceHash e with
  | error reason =>
    rw [hok] at hread
    cases hread
  | ok read' =>
    rw [hok] at hread
    obtain rfl := Option.some.inj hread
    obtain ⟨body, programs, -, -, hvariant⟩ := readVariant_ok hok
    rw [hvariant]
    exact VariantKey.eq_of_halves rfl (optionWord_of_entryOf? hentry)

end SetFile

namespace OpenFile

variable {f : SetFile} {o o' : OpenFile} {hash : UInt32} {e : IndexEntry} {key : VariantKey}

/-- Everything that is remembered is what the file would give now. -/
structure Exact (f : SetFile) (o : OpenFile) : Prop where
  file : o.file = f
  programs : f.HoldsPrograms o.programs
  loaded : ∀ key l, (key, l) ∈ o.loaded → ∃ read, f.readAt? key = some read ∧ l = o.keep read

namespace Exact

theorem opened (f : SetFile) (number : ℕ) : Exact f { file := f, number } where
  file := rfl
  programs := fun _ _ hmem => absurd hmem List.not_mem_nil
  loaded := fun _ _ hmem => absurd hmem List.not_mem_nil

theorem clear (h : Exact f o) : Exact f o.clear where
  file := h.file
  programs := fun _ _ hmem => absurd hmem List.not_mem_nil
  loaded := fun _ _ hmem => absurd hmem List.not_mem_nil

/-- **One entry**: it is given as it is read, or it cannot be read. -/
theorem loadEntry (h : Exact f o) (hentry : f.entryOf? ⟨hash, e.optionWord⟩ = some e) :
    (∃ read o', f.readAt? ⟨hash, e.optionWord⟩ = some read ∧
      o.loadEntry hash e = .ok (o.keep read, o') ∧ Exact f o' ∧ o'.keep = o.keep) ∨
    f.readAt? ⟨hash, e.optionWord⟩ = none ∧ ∃ reason, o.loadEntry hash e = .error reason := by
  cases hlook : o.loaded.lookup ⟨hash, e.optionWord⟩ with
  | some l =>
    obtain ⟨read, hread, rfl⟩ := h.loaded _ l (mem_of_lookup hlook)
    refine .inl ⟨read, o, hread, ?_, h, rfl⟩
    unfold OpenFile.loadEntry
    dsimp only
    rw [hlook]
  | none =>
    have hprograms : o.file.HoldsPrograms o.programs := h.file ▸ h.programs
    cases hread : f.readVariant hash e with
    | error reason =>
      exact .inr ⟨SetFile.readAt?_of_error hentry hread, reason,
        loadEntry_of_error hprograms hlook (h.file.symm ▸ hread)⟩
    | ok read =>
      obtain ⟨cached, hcached, hload⟩ := loadEntry_of_ok hprograms hlook (h.file.symm ▸ hread)
      have hread' := SetFile.readAt?_of_ok hentry hread
      refine .inl ⟨read, _, hread', hload, ⟨h.file, h.file ▸ hcached, ?_⟩, rfl⟩
      intro key l hl
      rcases List.mem_append.mp hl with hl | hl
      · exact h.loaded key l hl
      · obtain ⟨rfl, rfl⟩ := Prod.mk.inj (List.mem_singleton.mp hl)
        exact ⟨read, hread', rfl⟩

/-- **A lookup gives what the bytes say**, unless these cannot be read. -/
theorem load (h : Exact f o) (key : VariantKey) :
    (∃ found o', o.load key = .ok (found, o') ∧ Exact f o' ∧ o'.keep = o.keep ∧
      ∀ read, f.readAt? key = some read → found = some (o.keep read)) ∨
    f.readAt? key = none ∧ ∃ reason, o.load key = .error reason := by
  unfold OpenFile.load
  cases hlook : o.loaded.lookup key with
  | some l =>
    obtain ⟨read, hread, rfl⟩ := h.loaded _ l (mem_of_lookup hlook)
    refine .inl ⟨_, o, rfl, h, rfl, fun read' hread' => ?_⟩
    rw [Option.some.inj (hread'.symm.trans hread)]
  | none =>
    dsimp only
    rw [SetFile.bind_position_eq, h.file]
    cases hentry : f.entryOf? key with
    | none =>
      refine .inl ⟨none, o, rfl, h, rfl, fun read hread => ?_⟩
      rw [SetFile.readAt?, hentry] at hread
      cases hread
    | some e =>
      have hkey : (⟨key.sourceHash, e.optionWord⟩ : VariantKey) = key := by
        rw [SetFile.optionWord_of_entryOf? hentry]
      dsimp only
      rcases h.loadEntry (hkey.symm ▸ hentry) with
        ⟨read, o', hread, hload, ho', hkeep⟩ | ⟨hnone, reason, hload⟩
      · rw [hload]
        refine .inl ⟨_, o', rfl, ho', hkeep, fun read' hread' => ?_⟩
        rw [hkey, hread'] at hread
        rw [Option.some.inj hread]
      · rw [hload]
        exact .inr ⟨hkey ▸ hnone, reason, rfl⟩

theorem loadEntries : ∀ (entries : List (UInt32 × IndexEntry)) (o : OpenFile), Exact f o →
    (∀ p ∈ entries, f.entryOf? (SetFile.keyOf p) = some p.2) →
    Exact f (o.loadEntries entries).1 := by
  intro entries
  induction entries with
  | nil => exact fun o h _ => h
  | cons p rest ih =>
    intro o h hentries
    unfold OpenFile.loadEntries
    rcases h.loadEntry (hentries p List.mem_cons_self) with
      ⟨read, o', -, hload, ho', -⟩ | ⟨-, reason, hload⟩
    · rw [hload]
      exact ih o' ho' fun q hq => hentries q (List.mem_cons_of_mem _ hq)
    · rw [hload]
      exact h

/-- **Whatever was looked up before**, what is remembered is what would be given now. -/
theorem of_reachable (hdistinct : f.Distinct) {number : ℕ} (h : Reachable f number o) :
    Exact f o := by
  induction h with
  | opened => exact opened f number
  | @load o o' key found _ hload ih =>
    rcases ih.load key with ⟨found', o₁, hload', ho₁, -⟩ | ⟨-, reason, hload'⟩
    · obtain ⟨-, rfl⟩ := Prod.mk.inj (Except.ok.inj (hload.symm.trans hload'))
      exact ho₁
    · cases hload.symm.trans hload'
  | @loadAll o _ ih =>
    have heq : o.usedEntries = OpenFile.usedEntries { file := f, number := 0 } := by
      unfold usedEntries
      rw [ih.file]
    unfold OpenFile.loadAll
    rw [heq]
    exact ih.loadEntries _ o fun p hp => hdistinct.entryOf?_of_mem hp
  | clear _ ih => exact ih.clear

end Exact

end OpenFile

namespace LookupSet

variable {f : SetFile} {s : LookupSet}

open OpenFile (Exact)

/-- What the own file has is taken from it, whatever there is to fall back on. -/
theorem get_of_readAt? (h : Exact f s.own) {key : VariantKey} {read : ReadVariant}
    (hread : f.readAt? key = some read) : ∃ o',
    s.get key = ({ s with own := o' }, .ok (s.own.keep read)) ∧ Exact f o' ∧
      o'.keep = s.own.keep := by
  rcases h.load key with ⟨found, o', hload, ho', hkeep, hfound⟩ | ⟨hnone, -⟩
  · obtain rfl := hfound read hread
    refine ⟨o', ?_, ho', hkeep⟩
    unfold get tryGet files
    rw [tryFiles_of_load hload]
  · cases hread.symm.trans hnone

/-- A variant with its name, if that can be computed. -/
def named (o : Overflow) (info : ShaderInfo) (v : Loaded) : Loaded × String :=
  (v, (info.variantNameInWords o v.variant.key.optionWord).toOption.getD "")

/-- **Many keys, one after the other**: all that is given comes from the same file in the same
state, with its name. -/
theorem getNamed_of_readAt? {o : Overflow} {info : ShaderInfo}
    {keys : List VariantKey} {reads : List ReadVariant}
    (hreads : List.Forall₂ (fun key read => f.readAt? key = some read) keys reads)
    (hnames : ∀ key ∈ keys, ∃ name, info.variantNameInWords o key.optionWord = .ok name) :
    ∀ {s : LookupSet}, Exact f s.own → ∃ o',
      s.getNamed o info keys =
          ({ s with own := o' }, .ok ((reads.map s.own.keep).map (named o info))) ∧
        Exact f o' := by
  induction hreads with
  | nil => exact fun h => ⟨_, rfl, h⟩
  | @cons key read keys reads hread _ ih =>
    intro s h
    obtain ⟨⟨name, hkey⟩, hrest⟩ := List.forall_mem_cons.mp hnames
    obtain ⟨o₁, hget, ho₁, hkeep⟩ := get_of_readAt? h hread
    obtain ⟨o₂, hall, ho₂⟩ := ih hrest (s := { s with own := o₁ }) ho₁
    have hname : info.variantNameInWords o key.optionWord =
        .ok (named o info (s.own.keep read)).2 := by
      change _ = Except.ok
        ((info.variantNameInWords o read.variant.key.optionWord).toOption.getD "")
      rw [SetFile.key_of_readAt? hread, hkey]
      rfl
    refine ⟨o₂, ?_, ho₂⟩
    unfold getNamed
    rw [hget]
    dsimp only
    rw [hname]
    dsimp only
    rw [hall]
    dsimp only
    rw [hkeep]
    rfl

/-- If keys are listed, their names were computed. -/
theorem exists_name_of_getNamed {o : Overflow} {info : ShaderInfo} :
    ∀ {keys : List VariantKey} {s s' : LookupSet} {vs : List (Loaded × String)},
    s.getNamed o info keys = (s', .ok vs) →
    ∀ key ∈ keys, ∃ name, info.variantNameInWords o key.optionWord = .ok name := by
  intro keys
  induction keys with
  | nil => exact fun _ _ hkey => absurd hkey List.not_mem_nil
  | cons key rest ih =>
    intro s s' vs h
    unfold getNamed at h
    split at h
    · cases h
    · split at h
      · cases h
      · next name hname =>
        split at h
        · cases h
        · next hrest => exact List.forall_mem_cons.mpr ⟨⟨name, hname⟩, ih hrest⟩

end LookupSet

end ShaderVariants
