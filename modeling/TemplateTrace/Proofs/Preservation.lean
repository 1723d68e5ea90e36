import TemplateTrace.Proofs.Saving
import TemplateTrace.Session

/-!
What is left alone when the usual settings are written.

Directories are made first, and then one file is put where the target leads by then. If the target led
nowhere before, that may be where a file has been all along: whether the file is there is asked before
the directories are made, and a path through a missing directory and out of it again leads on only
afterwards.
-/

namespace TemplateTrace

open Disk Storage

variable {d d' : Disk} {target : String}

/-- A file is put where the path leads once some directories are made. -/
def Disk.Puts (target : String) (d d' : Disk) : Prop :=
  ∃ between p bytes, Grows d between ∧ between.locate target = .ok p ∧
    between.entryAt p ≠ some .directory ∧ d' = between.put p (.file bytes)

namespace Disk.Puts

/-- Only the file that is put changes. -/
lemma entryAt (h : Puts target d d') {q : Spot} {e : DiskEntry} (he : d.entryAt q = some e) :
    d'.entryAt q = some e ∨ d'.locate target = .ok q ∧ e ≠ .directory := by
  obtain ⟨between, p, bytes, hgrows, hp, hdirectory, rfl⟩ := h
  have hbetween := hgrows.keeps q e he
  by_cases hq : q = p
  · subst hq
    refine .inr ⟨(keepsDirectories_put _ hdirectory).locate hp, ?_⟩
    rintro rfl
    exact hdirectory hbetween
  · exact .inl ((entryAt_put_of_ne _ hq).trans hbetween)

lemma rooted (h : Puts target d d') (hd : d.Rooted) : d'.Rooted := by
  obtain ⟨between, p, bytes, hgrows, hp, hdirectory, rfl⟩ := h
  have hbetween := hgrows.rooted hd
  exact hbetween.put _ hdirectory (hbetween.locate_outer hp)

/-- Nothing changes if nothing was there. -/
lemma keeps (h : Puts target d d') (hnone : ∀ p, d'.locate target = .ok p → d.entryAt p = none) :
    Keeps d d' := by
  intro q e he
  refine (h.entryAt he).resolve_right fun ⟨hq, _⟩ => ?_
  rw [hnone q hq] at he
  cases he

lemma locate_cases (h : Puts target d d') {p : Spot} (hp : d'.locate target = .ok p) :
    d.locate target = .ok p ∨ d.locate target = .error .notFound := by
  obtain ⟨between, q, bytes, hgrows, hq, hdirectory, rfl⟩ := h
  rw [(keepsDirectories_put _ hdirectory).locate hq] at hp
  cases hp
  exact hgrows.keeps.locate_cases hq

end Disk.Puts

lemma Disk.entryAt_of_not_isPresent {path : String} {p : Spot} (h : d.isPresent path = false)
    (hp : d.locate path = .ok p) : d.entryAt p = none := by
  simpa [isPresent, hp] using h

namespace Session

/-- The settings file of a directory. -/
def settingsFile (path : Option String) : String :=
  Path.inside (path.getD ".") "metatrace.toml"

lemma run_init (path : Option String) (force : Bool) (d : Disk) :
    (init path force : StateM Disk _).run d =
      if d.isPresent (settingsFile path) && !force then
        (.error (.present (settingsFile path)), d)
      else match (makeDirectories (path.getD ".") : StateM Disk _).run d with
        | (.error e, d') => (.error (.noDirectory e), d')
        | (.ok (), d') =>
          match (Settings.save {} (settingsFile path) : StateM Disk _).run d' with
          | (.error failure, d'') => (.error (.failed [] failure), d'')
          | (.ok (), d'') => (.ok (settingsFile path), d'') := by
  simp only [init, StateT.run_bind, run_isPresent, pure_bind]
  change StateT.run (if (d.isPresent (settingsFile path) && !force) = true then _ else _) d = _
  by_cases hrefused : (d.isPresent (settingsFile path) && !force) = true
  · rw [if_pos hrefused, if_pos hrefused]
    rfl
  · rw [if_neg hrefused, if_neg hrefused, StateT.run_bind]
    rcases (makeDirectories (path.getD ".") : StateM Disk _).run d with ⟨_ | _, between⟩
    · rfl
    · change StateT.run (Settings.save {} (settingsFile path) >>= _) between = _
      rw [StateT.run_bind]
      rcases hsave : (Settings.save {} (settingsFile path) : StateM Disk _).run between
        with ⟨_ | _, d'⟩ <;> simp only [hsave] <;> rfl

/-- Either there is trouble and the disk has only grown, or the usual settings are put in the file. -/
lemma init_cases (path : Option String) (force : Bool) (d : Disk) :
    (∃ trouble d', (init path force : StateM Disk _).run d = (.error trouble, d') ∧ Grows d d') ∨
    ∃ d', (init path force : StateM Disk _).run d = (.ok (settingsFile path), d') ∧
      (force = false → d.isPresent (settingsFile path) = false) ∧ Puts (settingsFile path) d d' ∧
      (Settings.load (settingsFile path) : StateM Disk _).run d' = (.ok {}, d') := by
  have hdefault : ({} : Settings).width ≤ 2 ^ 63 - 1 := by decide
  rw [run_init]
  by_cases hrefused : (d.isPresent (settingsFile path) && !force) = true
  · rw [if_pos hrefused]
    exact .inl ⟨_, d, rfl, Grows.refl d⟩
  rw [if_neg hrefused]
  have hgrows := growing_makeDirectories (path.getD ".") d
  rcases hmade : (makeDirectories (path.getD ".") : StateM Disk _).run d with ⟨e | _, between⟩ <;>
    rw [hmade] at hgrows
  · exact .inl ⟨_, between, rfl, hgrows⟩
  obtain ⟨failure, hsave⟩ | ⟨p, bytes, hp, hdirectory, hsave⟩ :=
    Settings.save_cases hdefault (settingsFile path) between
  · simp only [hsave]
    exact .inl ⟨_, between, rfl, hgrows⟩
  · refine .inr ⟨between.put p (.file bytes), ?_, ?_, ?_, Settings.load_of_save hdefault hsave⟩
    · simp only [hsave]
    · rintro rfl
      simpa using hrefused
    · exact ⟨between, p, bytes, hgrows, hp, hdirectory, rfl⟩

lemma run_execute_init (s : Settings) (path : Option String) (force : Bool) (d : Disk) :
    (execute s (.init path force) : StateM Disk _).run d =
      (((init path force : StateM Disk _).run d).1.map fun _ => [],
        ((init path force : StateM Disk _).run d).2) := rfl

/-- **Nothing but the settings file changes**, and not even that if there is trouble. Without force a
file that was there changes only if the path to the settings led nowhere before, and so never if it has
no step out of a directory. -/
theorem init_keeps (path : Option String) (force : Bool) (d : Disk) :
    ∃ answer d', (init path force : StateM Disk _).run d = (answer, d') ∧
      (∀ s, (execute s (.init path force) : StateM Disk _).run d = (answer.map fun _ => [], d')) ∧
      (∀ p e, d.entryAt p = some e → d'.entryAt p = some e ∨
        answer = .ok (settingsFile path) ∧ d'.locate (settingsFile path) = .ok p ∧
          e ≠ .directory) ∧
      (∀ trouble, answer = .error trouble → Keeps d d') ∧
      (∀ written, answer = .ok written → written = settingsFile path ∧
        (Settings.load written : StateM Disk _).run d' = (.ok {}, d')) ∧
      (force = false → Keeps d d' ∨ d.locate (settingsFile path) = .error .notFound) ∧
      (d.Rooted → d'.Rooted ∧
        (force = false → ".." ∉ Path.steps (settingsFile path) → Keeps d d')) := by
  obtain ⟨trouble, d', hrun, hgrows⟩ | ⟨d', hrun, habsent, hputs, hload⟩ := init_cases path force d
  · refine ⟨.error trouble, d', hrun, fun s => by rw [run_execute_init, hrun], ?_, ?_, ?_, ?_, ?_⟩
    · exact fun p e he => .inl (hgrows.keeps p e he)
    · exact fun _ _ => hgrows.keeps
    · nofun
    · exact fun _ => .inl hgrows.keeps
    · exact fun hd => ⟨hgrows.rooted hd, fun _ _ => hgrows.keeps⟩
  · refine ⟨.ok (settingsFile path), d', hrun, fun s => by rw [run_execute_init, hrun], ?_, ?_, ?_,
      ?_, ?_⟩
    · exact fun p e he => (hputs.entryAt he).imp_right fun h => ⟨rfl, h⟩
    · nofun
    · rintro written ⟨⟩
      exact ⟨rfl, hload⟩
    · intro hforce
      -- The check speaks of the spot that is written only if the path led there already.
      by_cases hmissing : d.locate (settingsFile path) = .error .notFound
      · exact .inr hmissing
      · refine .inl (hputs.keeps fun p hp => ?_)
        exact entryAt_of_not_isPresent (habsent hforce) ((hputs.locate_cases hp).resolve_right hmissing)
    · refine fun hd => ⟨hputs.rooted hd, fun hforce hup => hputs.keeps fun p hp => ?_⟩
      -- A path that only goes down leads to nothing that was there if it led nowhere before.
      obtain hsame | hmissing := hputs.locate_cases hp
      · exact entryAt_of_not_isPresent (habsent hforce) hsame
      · exact hd.entryAt_of_locate hup hmissing hp

/-- By way of a directory that is still missing, a file is written over without force. -/
theorem init_overwrites_through_missing :
    let d : Disk := ⟨[({ names := ["metatrace.toml"] }, .file "old".toUTF8)]⟩
    let after := (init (some "a/..") false : StateM Disk _).run d
    d.Rooted ∧ d.read "metatrace.toml" = .ok "old".toUTF8 ∧
      after.1 = .ok "a/../metatrace.toml" ∧ after.2.read "metatrace.toml" ≠ .ok "old".toUTF8 :=
  ⟨rooted_empty.put _ (by simp [entryAt]) rfl, by decide +kernel⟩

end Session

end TemplateTrace
