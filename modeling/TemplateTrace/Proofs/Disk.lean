import TemplateTrace.Disk
import Mathlib.Tactic.Common

/-!
What becomes of a disk when directories are made and files are written.

A path is followed through directories only. So it leads where it led as long as every directory
stays one. Where it led nowhere it may lead on once directories are made, even back to what was there
before, since a step may lead out of a directory that was missing.
-/

namespace TemplateTrace

lemma Spot.outer_cons (base : Base) (name : String) (names : List String) :
    Spot.outer ⟨base, name :: names⟩ = ⟨base, names⟩ := by
  cases base <;> rfl

namespace Disk

variable {d d' d'' : Disk} {p q here : Spot} {path text : String}

/-! ### What is where -/

/-- Every entry stays as it is. -/
def Keeps (d d' : Disk) : Prop := ∀ p e, d.entryAt p = some e → d'.entryAt p = some e

/-- Every directory stays a directory. -/
def KeepsDirectories (d d' : Disk) : Prop :=
  ∀ p, d.entryAt p = some .directory → d'.entryAt p = some .directory

lemma Keeps.refl (d : Disk) : Keeps d d := fun _ _ => id

lemma Keeps.trans (h : Keeps d d') (h' : Keeps d' d'') : Keeps d d'' :=
  fun p e he => h' p e (h p e he)

lemma entryAt_put_of_ne (e : DiskEntry) (h : q ≠ p) : (d.put p e).entryAt q = d.entryAt q := by
  rw [entryAt_put]
  by_cases hq : q.names = []
  · simp [hq, entryAt]
  · simp [hq, h]

lemma names_ne_nil (h : d.entryAt p ≠ some .directory) : p.names ≠ [] :=
  fun hp => h (by simp [entryAt, hp])

lemma entryAt_put_self (e : DiskEntry) (h : d.entryAt p ≠ some .directory) :
    (d.put p e).entryAt p = some e := by
  simp [entryAt_put, names_ne_nil h]

lemma entryAt_put_of_entryAt {f : DiskEntry} (e : DiskEntry) (hq : d.entryAt q = some f)
    (hp : d.entryAt p ≠ some f) : (d.put p e).entryAt q = some f := by
  have hne : q ≠ p := by
    rintro rfl
    exact hp hq
  rw [entryAt_put_of_ne e hne, hq]

lemma keeps_put (e : DiskEntry) (h : d.entryAt p = none) : Keeps d (d.put p e) :=
  fun _ _ hq => entryAt_put_of_entryAt e hq (by simp [h])

lemma keepsDirectories_put (e : DiskEntry) (h : d.entryAt p ≠ some .directory) :
    KeepsDirectories d (d.put p e) :=
  fun _ hq => entryAt_put_of_entryAt e hq h

/-- Whatever is there is in a directory. -/
def Rooted (d : Disk) : Prop := ∀ p e, d.entryAt p = some e → d.entryAt p.outer = some .directory

lemma rooted_empty : Rooted {} := by
  intro p e he
  obtain ⟨base, names⟩ := p
  cases names with
  | nil => cases base <;> rfl
  | cons name names => simp [entryAt] at he

lemma Rooted.put (h : d.Rooted) (e : DiskEntry) (hp : d.entryAt p ≠ some .directory)
    (houter : d.entryAt p.outer = some .directory) : (d.put p e).Rooted := by
  intro q f hq
  by_cases hqp : q = p
  · rw [hqp]
    exact keepsDirectories_put e hp _ houter
  · rw [entryAt_put_of_ne e hqp] at hq
    exact keepsDirectories_put e hp _ (h q f hq)

/-- Nothing is inside of what is not there. -/
lemma Rooted.exists_outer (h : d.Rooted) {base : Base} {names outer : List String} {e : DiskEntry}
    (he : d.entryAt ⟨base, names ++ outer⟩ = some e) : ∃ f, d.entryAt ⟨base, outer⟩ = some f := by
  induction names generalizing e with
  | nil => exact ⟨e, he⟩
  | cons name names ih =>
    have hin := h _ e he
    rw [List.cons_append, Spot.outer_cons] at hin
    exact ih hin

/-! ### Paths -/

lemma KeepsDirectories.follow (h : KeepsDirectories d d') {steps : List String}
    (hq : d.follow here steps = .ok q) : d'.follow here steps = .ok q := by
  induction steps generalizing here with
  | nil => exact hq
  | cons step steps ih =>
    rw [Disk.follow] at hq ⊢
    split at hq
    · cases hq
    · cases hq
    · next hhere =>
      rw [h here hhere]
      exact ih hq

/-- A path leads where it led before. -/
lemma KeepsDirectories.locate (h : KeepsDirectories d d') (hq : d.locate path = .ok q) :
    d'.locate path = .ok q := by
  rw [Disk.locate] at hq ⊢
  split at hq
  · cases hq
  · next hpath =>
    rw [if_neg hpath]
    exact h.follow hq

lemma Keeps.follow_cases (h : Keeps d d') {steps : List String}
    (hq : d'.follow here steps = .ok q) :
    d.follow here steps = .ok q ∨ d.follow here steps = .error .notFound := by
  induction steps generalizing here with
  | nil => exact .inl hq
  | cons step steps ih =>
    rw [follow] at hq ⊢
    cases hhere : d.entryAt here with
    | none => exact .inr rfl
    | some e =>
      rw [h here e hhere] at hq
      cases e with
      | file bytes => cases hq
      | directory => exact ih hq

/-- A path leads where it led before, unless something was missing on its way. -/
lemma Keeps.locate_cases (h : Keeps d d') (hq : d'.locate path = .ok q) :
    d.locate path = .ok q ∨ d.locate path = .error .notFound := by
  rw [locate] at hq ⊢
  split at hq
  · cases hq
  · next hpath =>
    rw [if_neg hpath]
    exact h.follow_cases hq

/-- Steps that never lead out of a directory lead to a place inside of where they start. -/
lemma follow_inside {steps : List String} (hup : ".." ∉ steps)
    (hq : d.follow here steps = .ok q) : ∃ names, q = ⟨here.base, names ++ here.names⟩ := by
  induction steps generalizing here with
  | nil =>
    cases hq
    exact ⟨[], rfl⟩
  | cons step steps ih =>
    rw [List.mem_cons, not_or] at hup
    rw [follow] at hq
    split at hq
    · cases hq
    · cases hq
    · obtain ⟨names, hnames⟩ := ih hup.2 hq
      by_cases hstays : Path.stays step
      · exact ⟨names, by simpa [Spot.move, hstays] using hnames⟩
      · exact ⟨names ++ [step], by simpa [Spot.move, hstays, Ne.symm hup.1] using hnames⟩

lemma Rooted.entryAt_of_follow (h : d.Rooted) {steps : List String} (hup : ".." ∉ steps)
    (hmissing : d.follow here steps = .error .notFound) (hq : d'.follow here steps = .ok q) :
    d.entryAt q = none := by
  induction steps generalizing here with
  | nil => cases hmissing
  | cons step steps ih =>
    cases hhere : d.entryAt here with
    | none =>
      obtain ⟨names, rfl⟩ := follow_inside hup hq
      by_contra hne
      obtain ⟨e, he⟩ := Option.ne_none_iff_exists'.mp hne
      obtain ⟨f, hf⟩ := h.exists_outer he
      rw [hhere] at hf
      cases hf
    | some e =>
      rw [follow, hhere] at hmissing
      rw [follow] at hq
      cases e with
      | file bytes => cases hmissing
      | directory =>
        split at hq
        · cases hq
        · cases hq
        · exact ih (fun hmem => hup (List.mem_cons_of_mem _ hmem)) hmissing hq

/-- Without steps out of a directory, a path on which something was missing leads to a place where
there was nothing. -/
lemma Rooted.entryAt_of_locate (h : d.Rooted) (hup : ".." ∉ Path.steps path)
    (hmissing : d.locate path = .error .notFound) (hq : d'.locate path = .ok q) :
    d.entryAt q = none := by
  rw [locate] at hmissing hq
  split at hq
  · cases hq
  · next hpath =>
    rw [if_neg hpath] at hmissing
    exact h.entryAt_of_follow hup hmissing hq

lemma Rooted.follow_outer (h : d.Rooted) {steps : List String}
    (houter : d.entryAt here.outer = some .directory) (hq : d.follow here steps = .ok q) :
    d.entryAt q.outer = some .directory := by
  induction steps generalizing here with
  | nil =>
    cases hq
    exact houter
  | cons step steps ih =>
    rw [follow] at hq
    split at hq
    · cases hq
    · cases hq
    · next hhere =>
      refine ih ?_ hq
      unfold Spot.move
      split_ifs
      · exact houter
      · exact h _ _ houter
      · rwa [Spot.outer_cons]

/-- What a path leads to is in a directory, whether it is there or not. -/
lemma Rooted.locate_outer (h : d.Rooted) (hq : d.locate path = .ok q) :
    d.entryAt q.outer = some .directory := by
  rw [locate] at hq
  split at hq
  · cases hq
  · refine h.follow_outer ?_ hq
    split <;> rfl

/-! ### Writing -/

/-- Either nothing is written, or the text is put where the path leads, if no directory is there. -/
lemma write_cases (d : Disk) (path text : String) :
    (∃ e, d.write path text = (.error e, d)) ∨
    ∃ p, d.locate path = .ok p ∧ d.entryAt p ≠ some .directory ∧
      d.write path text = (.ok (), d.put p (.file text.toUTF8)) := by
  rw [write]
  split
  · next e _ => exact .inl ⟨e, rfl⟩
  · next p hp =>
    split
    · exact .inl ⟨_, rfl⟩
    · next hdirectory => exact .inr ⟨p, hp, hdirectory, rfl⟩

/-- What is written is read. -/
lemma read_of_write (h : d.write path text = (.ok (), d')) : d'.read path = .ok text.toUTF8 := by
  obtain ⟨e, he⟩ | ⟨p, hp, hdirectory, hw⟩ := write_cases d path text
  · simp [he] at h
  · obtain rfl : d.put p (.file text.toUTF8) = d' := by simpa [hw] using h
    have hlocate := (keepsDirectories_put (.file text.toUTF8) hdirectory).locate hp
    simp only [read, hlocate, entryAt_put_self _ hdirectory]

/-! ### Making directories -/

/-- What is there stays, and what is new is in a directory. -/
structure Grows (d d' : Disk) : Prop where
  keeps : Keeps d d'
  rooted : d.Rooted → d'.Rooted

lemma Grows.refl (d : Disk) : Grows d d := ⟨Keeps.refl d, id⟩

lemma Grows.trans (h : Grows d d') (h' : Grows d' d'') : Grows d d'' :=
  ⟨h.keeps.trans h'.keeps, h'.rooted ∘ h.rooted⟩

lemma grows_makeDirectory (d : Disk) (path : String) : Grows d (d.makeDirectory path).2 := by
  rw [makeDirectory]
  split
  · exact Grows.refl d
  · next p hp =>
    split
    · exact Grows.refl d
    · next hnone =>
      have hdirectory : d.entryAt p ≠ some .directory := by simp [hnone]
      exact ⟨keeps_put _ hnone, fun h => h.put _ hdirectory (h.locate_outer hp)⟩

end Disk

/-! ### Programs -/

namespace Storage

open Disk

variable {α β : Type}

@[simp]
lemma run_isPresent (path : String) (d : Disk) :
    (isPresent path : StateM Disk _).run d = pure (d.isPresent path, d) := rfl

@[simp]
lemma run_read (path : String) (d : Disk) :
    (read path : StateM Disk _).run d = pure (d.read path, d) := rfl

@[simp]
lemma run_write (path text : String) (d : Disk) :
    (write path text : StateM Disk _).run d = pure (d.write path text) := rfl

/-- Whatever the disk is, it only grows. -/
def Growing (x : StateM Disk α) : Prop := ∀ d, Grows d (x.run d).2

lemma growing_pure (a : α) : Growing (pure a) := Grows.refl

lemma Growing.bind {x : StateM Disk α} {f : α → StateM Disk β} (hx : Growing x)
    (hf : ∀ a, Growing (f a)) : Growing (x >>= f) :=
  fun d => (hx d).trans (hf _ _)

lemma growing_ensureDirectory (path : String) :
    Growing (ensureDirectory path : StateM Disk _) := by
  refine Growing.bind (grows_makeDirectory · path) fun answer => ?_
  split
  · exact growing_pure _
  · refine Growing.bind Grows.refl fun present => ?_
    split <;> exact growing_pure _

lemma growing_ensureWithin (path : String) (outers : List String) :
    Growing (ensureWithin path outers : StateM Disk _) := by
  induction outers generalizing path with
  | nil => exact growing_ensureDirectory path
  | cons outer outers ih =>
    refine Growing.bind (growing_ensureDirectory path) fun answer => ?_
    split
    · refine Growing.bind (ih outer) fun made => ?_
      split
      · exact growing_ensureDirectory path
      · exact growing_pure _
    · exact growing_pure _

/-- Directories are made only where there was nothing. -/
lemma growing_makeDirectories (path : String) :
    Growing (makeDirectories path : StateM Disk _) := by
  unfold makeDirectories
  split
  · exact growing_pure _
  · exact growing_ensureWithin _ _

end Storage

end TemplateTrace
