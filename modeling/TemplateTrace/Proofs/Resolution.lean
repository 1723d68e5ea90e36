import TemplateTrace.Dictionary.Search
import TemplateTrace.Proofs.Expansion

/-!
The search for the text of an id finds what plain recursion finds, whatever was known before.

A text that is known is the text along every path that holds no known id. The ids under way are the
path of the recursion and are not known yet, so what the search knows can be used at once, and
what it leaves behind serves every later search.
-/

namespace TemplateTrace

open Dictionary

/-- What is known agrees with recursion along every path of unknown ids. -/
def Dictionary.Sound (d : Dictionary) (known : Known) : Prop :=
  ∀ path : List UInt32, (∀ i ∈ path, i ∉ known) →
    ∀ i text, known[i]? = some text → d.expand path i = .ok text

namespace Search

variable {d : Dictionary} {path : List UInt32} {s s' : Search} {id : UInt32}

/-- The search stands where the recursion does, with the path under way. -/
structure On (d : Dictionary) (path : List UInt32) (s : Search) : Prop where
  sound : d.Sound s.known
  underway : ∀ i, i ∈ s.underway ↔ i ∈ path
  unknown : ∀ i ∈ path, i ∉ s.known

/-- Nothing that was known is forgotten. -/
def Keeps (s s' : Search) : Prop :=
  ∀ (i : UInt32) (text : String), s.known[i]? = some text → s'.known[i]? = some text

lemma Keeps.trans {s₁ s₂ s₃ : Search} (h : Keeps s₁ s₂) (h' : Keeps s₂ s₃) : Keeps s₁ s₃ :=
  fun i text hi => h' i text (h i text hi)

lemma On.not_underway (h : On d path s) (hid : id ∉ path) : id ∉ s.underway :=
  fun hu => hid ((h.underway id).mp hu)

/-- The ids are known to have the texts. -/
def Spelled (known : Known) : List UInt32 → List String → Prop :=
  List.Forall₂ fun id text => known[id]? = some text

/-- Working through the tasks before the rest gives the result: after a success the search goes on
with the rest and knows what was found, after a failure it ends with that failure. -/
def Gives {α : Type} (d : Dictionary) (path : List UInt32) (s : Search) (rest : List Task)
    (found : α → Known → Prop) : Except NameError α → Prop
  | .ok a => ∃ s' : Search, On d path s' ∧ s'.pending = rest ∧ Keeps s s' ∧ found a s'.known ∧
      run d s = run d s'
  | .error cause => ∃ known, d.Sound known ∧ run d s = (known, .error cause)

/-- The search before a run that leads to it gives the same. -/
lemma Gives.of_run_eq {α : Type} {rest : List Task} {found : α → Known → Prop}
    {r : Except NameError α} (h : Gives d path s' rest found r) (hk : Keeps s s')
    (hr : run d s = run d s') : Gives d path s rest found r := by
  cases r with
  | error cause =>
    obtain ⟨known, hs, he⟩ := h
    exact ⟨known, hs, hr.trans he⟩
  | ok a =>
    obtain ⟨t, hon, hp, hkt, hf, he⟩ := h
    exact ⟨t, hon, hp, hk.trans hkt, hf, hr.trans he⟩

/-! ### Single steps -/

lemma run_of_pending_nil (h : s.pending = []) : run d s = (s.known, .ok ()) := by
  rw [run]
  split
  · rfl
  · next hp => simp [h] at hp

lemma run_of_pending_cons {t : Task} {rest : List Task} (h : s.pending = t :: rest) : run d s =
    match step d { s with pending := rest } t with
    | .error cause => (s.known, .error cause)
    | .ok s' => run d s' := by
  rw [run]
  split
  · next hp => simp [h] at hp
  · next hp =>
    obtain ⟨rfl, rfl⟩ := List.cons.inj (h.symm.trans hp)
    split <;> simp_all

lemma mem_known {known : Known} {i : UInt32} : i ∈ known ↔ ∃ text, known[i]? = some text := by
  rw [← Std.TreeMap.isSome_getElem?_iff_mem, Option.isSome_iff_exists]

/-- An id that is known is left as it is. -/
lemma gives_of_known {rest : List Task} {text : String} (hon : On d path s)
    (hp : s.pending = .visit id :: rest) (hk : s.known[id]? = some text) :
    Gives d path s rest (fun text known => known[id]? = some text) (d.expand path id) := by
  rw [hon.sound path hon.unknown id text hk]
  refine ⟨{ s with pending := rest }, ⟨hon.sound, hon.underway, hon.unknown⟩, rfl,
    fun _ _ h => h, hk, ?_⟩
  rw [run_of_pending_cons hp]
  simp [step, mem_known.mpr ⟨text, hk⟩]

/-- An id that is under way is the end of the search. -/
lemma gives_of_mem_path {rest : List Task} (hon : On d path s)
    (hp : s.pending = .visit id :: rest) (hid : id ∈ path) :
    Gives d path s rest (fun text known => known[id]? = some text) (d.expand path id) := by
  rw [expand_of_mem hid]
  refine ⟨s.known, hon.sound, ?_⟩
  rw [run_of_pending_cons hp]
  simp [step, hon.unknown id hid, (hon.underway id).mpr hid]

/-! ### Spelling out -/

/-- The texts of known markers can be looked up. -/
lemma mapM_known {known : Known} {markers : List UInt32} {texts : List String}
    (h : Spelled known markers texts) :
    (markers.mapM fun m => (known[m]?.elim (.error (.cycle m)) .ok : Except NameError String)) =
      .ok texts := by
  induction h with
  | nil => rfl
  | cons hm _ ih =>
    rw [List.mapM_cons, hm, ih]
    rfl

lemma spell_eq {known : Known} {markers : List UInt32} {texts : List String}
    (hn : d.needs id = .ok markers) (h : Spelled known markers texts) :
    d.spell known id = .ok (d.splice id texts) := by
  obtain ⟨e, he, hmarkers, hl⟩ := needs_eq_ok hn
  have hlen : texts.length = e.placeholders := h.length_eq.symm.trans hl
  have hfill := DictionaryEntry.fill_eq_weave e.marked.toList texts hlen
  have hentry : d.entry id = .ok e := by simp [Dictionary.entry, he]
  simp [Dictionary.spell, hentry, ← hmarkers, mapM_known h, hlen, bind, Except.bind, he, hfill,
    Dictionary.splice, DictionaryEntry.splice]

/-- Recursion gives known markers the texts that are known. -/
lemma expandAll_known {known : Known} {markers : List UInt32} {texts : List String}
    (hs : d.Sound known) (hp : ∀ i ∈ path, i ∉ known)
    (h : Spelled known markers texts) : d.expandAll path markers = .ok texts := by
  induction h with
  | nil => exact expandAll_nil
  | cons hm _ ih => rw [expandAll_cons, hs path hp _ _ hm, ih]

/-- What is known stays sound when an id joins it whose markers are known. -/
lemma sound_insert {known : Known} {markers : List UInt32} {texts : List String}
    (hs : d.Sound known) (hid : id ∉ known) (hn : d.needs id = .ok markers)
    (hm : Spelled known markers texts) : d.Sound (known.insert id (d.splice id texts)) := by
  intro path hp i text hi
  have hpk : ∀ j ∈ path, j ≠ id ∧ j ∉ known := fun j hj => by
    have := hp j hj
    grind
  rw [Std.TreeMap.getElem?_insert] at hi
  split at hi
  · next he =>
    obtain rfl : id = i := Std.LawfulEqCmp.eq_of_compare he
    have hidp : id ∉ path := fun h => (hpk id h).1 rfl
    have hmarkers : d.expandAll (id :: path) markers = .ok texts := by
      refine expandAll_known hs (fun j hj => ?_) hm
      rcases List.mem_cons.mp hj with rfl | hj
      · exact hid
      · exact (hpk j hj).2
    rw [expand_of_not_mem hidp, hn]
    simpa [hmarkers] using hi
  · exact hs path (fun j hj => (hpk j hj).2) i text hi

/-- An id whose markers are known becomes known itself, and leaves the path. -/
lemma run_spell {markers : List UInt32} {rest : List Task} {texts : List String} (hid : id ∉ path)
    (hon : On d (id :: path) s) (hp : s.pending = .spell id :: rest)
    (hn : d.needs id = .ok markers) (hm : Spelled s.known markers texts) :
    ∃ s', On d path s' ∧ s'.pending = rest ∧ Keeps s s' ∧
      s'.known[id]? = some (d.splice id texts) ∧ run d s = run d s' := by
  have hunknown : id ∉ s.known := hon.unknown id (by simp)
  refine ⟨⟨s.known.insert id (d.splice id texts), s.underway.erase id, rest⟩,
    ⟨sound_insert hon.sound hunknown hn hm, fun i => ?_, fun i hi => ?_⟩, rfl, ?_, ?_, ?_⟩
  · have := hon.underway i
    grind
  · have := hon.unknown i (by simp [hi])
    grind
  · intro i text hi
    have : i ≠ id := by
      rintro rfl
      exact hunknown (mem_known.mpr ⟨text, hi⟩)
    grind
  · simp
  · rw [run_of_pending_cons hp]
    simp [step, spell_eq hn hm]

/-! ### The search follows the recursion -/

/-- Visiting the id gives what recursion gives along the path. -/
def Visits (d : Dictionary) (path : List UInt32) (id : UInt32) : Prop :=
  ∀ (s : Search) (rest : List Task), On d path s → s.pending = .visit id :: rest →
    Gives d path s rest (fun text known => known[id]? = some text) (d.expand path id)

/-- Markers are visited from left to right; those that were known when the tasks were set up have
no task and are still known. -/
lemma gives_of_visits {ids : List UInt32} {before : Known} (h : ∀ i ∈ ids, Visits d path i)
    (rest : List Task) (hon : On d path s)
    (hb : ∀ (i : UInt32) (text : String), before[i]? = some text → s.known[i]? = some text)
    (hp : s.pending = (ids.filter (· ∉ before)).map .visit ++ rest) :
    Gives d path s rest (fun texts known => Spelled known ids texts) (d.expandAll path ids) := by
  induction ids generalizing s with
  | nil =>
    rw [expandAll_nil]
    exact ⟨s, hon, by simpa using hp, fun _ _ h => h, .nil, rfl⟩
  | cons id ids ih =>
    have hfirst : Gives d path s ((ids.filter (· ∉ before)).map .visit ++ rest)
        (fun text known => known[id]? = some text) (d.expand path id) := by
      by_cases hid : id ∈ before
      · obtain ⟨text, ht⟩ := mem_known.mp hid
        rw [hon.sound path hon.unknown id text (hb id text ht)]
        exact ⟨s, hon, by simpa [hid] using hp, fun _ _ h => h, hb id text ht, rfl⟩
      · exact h id (by simp) s _ hon (by simpa [hid] using hp)
    rw [expandAll_cons]
    cases he : d.expand path id with
    | error cause => rw [he] at hfirst; exact hfirst
    | ok text =>
      rw [he] at hfirst
      obtain ⟨s₁, hon₁, hp₁, hk₁, hf₁, hr₁⟩ := hfirst
      have hothers := ih (fun i hi => h i (by simp [hi])) hon₁
        (fun i text hi => hk₁ i text (hb i text hi)) hp₁
      cases hes : d.expandAll path ids with
      | error cause => rw [hes] at hothers; exact hothers.of_run_eq hk₁ hr₁
      | ok texts =>
        rw [hes] at hothers
        obtain ⟨s₂, hon₂, hp₂, hk₂, hf₂, hr₂⟩ := hothers
        exact ⟨s₂, hon₂, hp₂, hk₁.trans hk₂, .cons (hk₂ id text hf₁) hf₂, hr₁.trans hr₂⟩

/-- An id that starts puts itself on the path and its unknown markers before the rest. -/
lemma run_start {markers : List UInt32} {rest : List Task} (hon : On d path s)
    (hp : s.pending = .visit id :: rest) (hk : id ∉ s.known) (hid : id ∉ path)
    (hn : d.needs id = .ok markers) :
    ∃ s', On d (id :: path) s' ∧ s'.known = s.known ∧
      s'.pending = (markers.filter (· ∉ s.known)).map .visit ++ .spell id :: rest ∧
      run d s = run d s' := by
  refine ⟨⟨s.known, s.underway.insert id, _⟩, ⟨hon.sound, fun i => ?_, fun i hi => ?_⟩, rfl,
    rfl, ?_⟩
  · have := hon.underway i
    grind
  · rcases List.mem_cons.mp hi with rfl | hi
    · exact hk
    · exact hon.unknown i hi
  · rw [run_of_pending_cons hp]
    simp [step, hk, hon.not_underway hid, hn]

theorem visits (d : Dictionary) (path : List UInt32) (id : UInt32) : Visits d path id := by
  -- each id that starts leaves fewer places of the table off the path
  induction hm : d.unvisited path using Nat.strong_induction_on generalizing path id with
  | _ n ih =>
    subst hm
    intro s rest hon hp
    by_cases hk : id ∈ s.known
    · obtain ⟨text, ht⟩ := mem_known.mp hk
      exact gives_of_known hon hp ht
    by_cases hid : id ∈ path
    · exact gives_of_mem_path hon hp hid
    rw [expand_of_not_mem hid]
    cases hn : d.needs id with
    | error cause =>
      refine ⟨s.known, hon.sound, ?_⟩
      rw [run_of_pending_cons hp]
      simp [step, hk, hon.not_underway hid, hn]
    | ok markers =>
      obtain ⟨e, he, -⟩ := needs_eq_ok hn
      have hlt := unvisited_cons_lt hid (lt_size_of_getElem? he)
      obtain ⟨s₁, hon₁, hk₁, hp₁, hr₁⟩ := run_start hon hp hk hid hn
      have hkeep : Keeps s s₁ := fun i text hi => by rw [hk₁]; exact hi
      have hmarkers := gives_of_visits (fun m _ => ih _ hlt (id :: path) m rfl)
        (.spell id :: rest) hon₁ hkeep hp₁
      simp only
      cases hes : d.expandAll (id :: path) markers with
      | error cause => rw [hes] at hmarkers; exact hmarkers.of_run_eq hkeep hr₁
      | ok texts =>
        rw [hes] at hmarkers
        obtain ⟨s₂, hon₂, hp₂, hk₂, hf₂, hr₂⟩ := hmarkers
        obtain ⟨s₃, hon₃, hp₃, hk₃, hf₃, hr₃⟩ := run_spell hid hon₂ hp₂ hn hf₂
        exact ⟨s₃, hon₃, hp₃, hkeep.trans (hk₂.trans hk₃), hf₃, hr₁.trans (hr₂.trans hr₃)⟩

end Search

namespace Glossary

/-- The glossary after the ids were resolved one after the other. -/
def after (g : Glossary) (ids : List UInt32) : Glossary :=
  ids.foldl (fun g id => (g.resolve id).2) g

variable {g : Glossary}

/-- One id is resolved as recursion expands it, and what is known stays sound. -/
lemma resolve_of_sound (h : g.dictionary.Sound g.known) (id : UInt32) :
    (g.resolve id).1 = g.dictionary.expand [] id ∧ (g.resolve id).2.dictionary = g.dictionary ∧
      g.dictionary.Sound (g.resolve id).2.known := by
  have hon : Search.On g.dictionary [] ⟨g.known, ∅, [.visit id]⟩ :=
    ⟨h, by simp, by simp⟩
  have hv := Search.visits g.dictionary [] id _ [] hon rfl
  unfold resolve
  cases he : g.dictionary.expand [] id with
  | error cause =>
    rw [he] at hv
    obtain ⟨known, hs, hr⟩ := hv
    simp [hr, hs]
  | ok text =>
    rw [he] at hv
    obtain ⟨s, hon', hp, -, hf, hr⟩ := hv
    rw [hr, Search.run_of_pending_nil hp]
    simp [hf, hon'.sound]

lemma after_sound (h : g.dictionary.Sound g.known) (ids : List UInt32) :
    (g.after ids).dictionary = g.dictionary ∧ g.dictionary.Sound (g.after ids).known := by
  induction ids generalizing g with
  | nil => exact ⟨rfl, h⟩
  | cons id ids ih =>
    obtain ⟨-, hd, hs⟩ := resolve_of_sound h id
    rw [← hd] at hs
    obtain ⟨hd', hs'⟩ := ih hs
    exact ⟨hd'.trans hd, by rw [← hd]; exact hs'⟩

lemma sound_empty (d : Dictionary) : d.Sound ∅ := by
  intro path _ i text h
  simp at h

/-- The glossary is one of the dictionary, and what it knows is sound. -/
structure Serves (g : Glossary) (d : Dictionary) : Prop where
  dictionary : g.dictionary = d
  sound : d.Sound g.known

lemma serves_start (d : Dictionary) : Serves { dictionary := d } d := ⟨rfl, sound_empty d⟩

lemma Serves.resolve_eq {d : Dictionary} (h : g.Serves d) (id : UInt32) :
    (g.resolve id).1 = d.expand [] id := by
  obtain ⟨rfl, hs⟩ := h
  exact (resolve_of_sound hs id).1

lemma Serves.resolve {d : Dictionary} (h : g.Serves d) (id : UInt32) :
    (g.resolve id).2.Serves d := by
  obtain ⟨rfl, hs⟩ := h
  exact ⟨(resolve_of_sound hs id).2.1, (resolve_of_sound hs id).2.2⟩

lemma Serves.after {d : Dictionary} (h : g.Serves d) (ids : List UInt32) :
    (g.after ids).Serves d := by
  obtain ⟨rfl, hs⟩ := h
  exact ⟨(after_sound hs ids).1, (after_sound hs ids).2⟩

/-- **What was resolved before is never seen**: after any ids, an id is resolved to the text, or
fails with the cause, of plain recursion. -/
theorem resolve_after_eq_expand (d : Dictionary) (ids : List UInt32) (id : UInt32) :
    ((Glossary.after { dictionary := d } ids).resolve id).1 = d.expand [] id := by
  have hempty : ({ dictionary := d } : Glossary).dictionary.Sound ∅ := sound_empty d
  obtain ⟨hd, hs⟩ := after_sound hempty ids
  rw [← hd] at hs
  exact (resolve_of_sound hs id).1.trans (by rw [hd])

end Glossary

end TemplateTrace
