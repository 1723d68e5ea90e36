import TemplateTrace.Proofs.Elision
import TemplateTrace.Proofs.Picture

/-!
The outline read off the stream.

The table has the frames in the order of their ends, and the outline has them in the order of their
beginnings, each with the depth at which it begins. A beginning is known by the events before it.
A frame hangs directly below another one if everything that begins between the two beginnings also
ends between them, whatever was left out.
-/

namespace TemplateTrace

/-- The beginning of a frame, after the events that come before it in the stream. -/
structure Beginning where
  before : List Event
  instantiation : Instantiation
  deriving DecidableEq

namespace Beginning

/-- The stream up to the beginning, which is included. -/
def upTo (b : Beginning) : List Event := b.before ++ [.opens b.instantiation]

/-- How many frames are open right after the beginning. -/
def depth (b : Beginning) : Nat := openings b.upTo - closings b.upTo

/-- The frame begins directly below the frame that was begun last and is open after the events
`base`, or at the top if none is: what begins in between also ends. -/
def Under (b : Beginning) (base : List Event) : Prop :=
  ∃ inner, b.before = base ++ inner ∧ Balanced inner

/-- Outside full mode, some frame that begins between the beginning and its end, itself included,
is no bookkeeping. -/
def Kept (full : Bool) (es : List Event) (b : Beginning) : Prop :=
  full = true ∨ ∃ inner, Spans es b.before b.instantiation inner ∧
    ∃ j, .opens j ∈ Event.opens b.instantiation :: inner ∧ j.kind.isBookkeeping = false

end Beginning

/-- The beginnings among the events that come after those before, in order. -/
def beginningsAfter (before : List Event) : List Event → List Beginning
  | [] => []
  | .opens i :: es => ⟨before, i⟩ :: beginningsAfter (before ++ [.opens i]) es
  | .closes :: es => beginningsAfter (before ++ [.closes]) es

/-- The beginnings in a stream, in order. -/
def beginnings (es : List Event) : List Beginning := beginningsAfter [] es

lemma beginningsAfter_append (before es fs : List Event) :
    beginningsAfter before (es ++ fs) =
      beginningsAfter before es ++ beginningsAfter (before ++ es) fs := by
  induction es generalizing before with
  | nil => simp [beginningsAfter]
  | cons e es ih => cases e <;> simp [beginningsAfter, ih]

lemma split_of_mem_beginningsAfter {before es : List Event} {b : Beginning}
    (h : b ∈ beginningsAfter before es) :
    ∃ p q, es = p ++ .opens b.instantiation :: q ∧ b.before = before ++ p := by
  induction es generalizing before with
  | nil => simp [beginningsAfter] at h
  | cons e es ih =>
    cases e with
    | opens i =>
      rcases List.mem_cons.mp h with rfl | h
      · exact ⟨[], es, rfl, by simp⟩
      · obtain ⟨p, q, rfl, hb⟩ := ih h
        exact ⟨.opens i :: p, q, rfl, by simpa using hb⟩
    | closes =>
      obtain ⟨p, q, rfl, hb⟩ := ih h
      exact ⟨.closes :: p, q, rfl, by simpa using hb⟩

/-! ### Where a stretch ends -/

lemma Balanced.append {es fs : List Event} (h : Balanced es) (h' : Balanced fs) :
    Balanced (es ++ fs) := by
  obtain ⟨f, rfl⟩ := balanced_iff.mp h
  exact (closing_events_append f fs).mpr h'

/-- Nothing is open after a stream that nests, so no end can follow. -/
lemma Balanced.not_append_closes {es fs : List Event} (h : Balanced es) :
    ¬ Balanced (es ++ .closes :: fs) := by
  obtain ⟨f, rfl⟩ := balanced_iff.mp h
  intro h'
  obtain ⟨m, hm, -⟩ := closing_closes.mp ((closing_events_append f _).mp h')
  omega

/-- A frame ends in one place. -/
lemma Spans.inner_unique {es before inner inner' : List Event} {i : Instantiation}
    (h : Spans es before i inner) (h' : Spans es before i inner') : inner = inner' := by
  obtain ⟨⟨after, rfl⟩, hi⟩ := h
  obtain ⟨⟨after', he⟩, hi'⟩ := h'
  have hsplit : inner ++ .closes :: after = inner' ++ .closes :: after' := by simpa using he
  rcases List.append_eq_append_iff.mp hsplit with ⟨a, rfl, ha⟩ | ⟨a, rfl, ha⟩
  · rcases a with _ | ⟨e, a⟩
    · simp
    · obtain ⟨rfl, -⟩ := List.cons.inj ha
      exact absurd hi' hi.not_append_closes
  · rcases a with _ | ⟨e, a⟩
    · simp
    · obtain ⟨rfl, -⟩ := List.cons.inj ha
      exact absurd hi hi'.not_append_closes

/-! ### The specification can be run -/

instance (b : Beginning) (base : List Event) : Decidable (b.Under base) :=
  decidable_of_iff (base <+: b.before ∧ Balanced (b.before.drop base.length)) <| by
    constructor
    · rintro ⟨⟨inner, h⟩, hb⟩
      exact ⟨inner, h.symm, by simpa [← h] using hb⟩
    · rintro ⟨inner, h, hb⟩
      exact ⟨⟨inner, h.symm⟩, by simpa [h] using hb⟩

instance (es before inner : List Event) (i : Instantiation) : Decidable (Spans es before i inner) :=
  decidable_of_iff (before ++ .opens i :: (inner ++ [.closes]) <+: es ∧ Balanced inner) <| by
    constructor
    · rintro ⟨⟨after, rfl⟩, hb⟩
      exact ⟨⟨after, by simp⟩, hb⟩
    · rintro ⟨⟨after, rfl⟩, hb⟩
      exact ⟨⟨after, by simp⟩, hb⟩

/-- The frame that the event opens. -/
def Event.opened? : Event → Option Instantiation
  | .opens i => some i
  | .closes => none

lemma Event.opened?_eq_some {e : Event} {i : Instantiation} :
    e.opened? = some i ↔ e = .opens i := by
  cases e <;> simp [opened?]

instance (es : List Event) (p : Instantiation → Prop) [DecidablePred p] :
    Decidable (∃ i, .opens i ∈ es ∧ p i) :=
  decidable_of_iff (∃ i ∈ es.filterMap Event.opened?, p i) <| by
    simp [Event.opened?_eq_some]

instance (full : Bool) (es : List Event) (b : Beginning) : Decidable (b.Kept full es) :=
  decidable_of_iff (full = true ∨ ∃ inner ∈ (es.drop b.upTo.length).inits,
    Spans es b.before b.instantiation inner ∧
      ∃ j, .opens j ∈ Event.opens b.instantiation :: inner ∧ j.kind.isBookkeeping = false) <| by
    refine or_congr_right ⟨fun ⟨inner, _, h⟩ => ⟨inner, h⟩, fun ⟨inner, h⟩ => ⟨inner, ?_, h⟩⟩
    obtain ⟨after, rfl⟩ := h.1.split
    simp [Beginning.upTo]

/-- The beginnings of the frames that are kept, in the order of the stream. -/
def keptBeginnings (full : Bool) (es : List Event) : List Beginning :=
  (beginnings es).filter (·.Kept full es)

/-! ### The nodes of a forest -/

namespace Forest

/-- The nodes of the forest written down after the events before, in the order of their
beginnings, each with the forest below it. -/
def nodes (before : List Event) : Forest → List (Beginning × Forest)
  | nil => []
  | cons root below rest =>
    (⟨before, root⟩, below) :: (below.nodes (before ++ [.opens root]) ++
      rest.nodes (before ++ .opens root :: (below.events ++ [.closes])))

lemma beginningsAfter_events (before : List Event) (f : Forest) :
    beginningsAfter before f.events = (f.nodes before).map (·.1) := by
  induction f generalizing before with
  | nil => rfl
  | cons root below rest hb hr =>
    simp [events, nodes, beginningsAfter, beginningsAfter_append, hb, hr]

@[simp] lemma openings_events (f : Forest) : openings f.events = f.size := by
  have h := f.balanced_events.2
  rw [closings_events, Nat.zero_add] at h
  exact h.symm

/-- A node has its stretch in the stream, and the walk around what is below it is inside. -/
lemma spans_of_mem_nodes {before : List Event} (after : List Event) {f below : Forest}
    {b : Beginning} (h : (b, below) ∈ f.nodes before) :
    Spans (before ++ f.events ++ after) b.before b.instantiation below.events := by
  induction f generalizing before after with
  | nil => simp [nodes] at h
  | cons root sub rest hb hr =>
    rw [nodes, List.mem_cons, List.mem_append] at h
    rcases h with h | h | h
    · obtain ⟨rfl, rfl⟩ := Prod.mk.inj h
      exact ⟨⟨rest.events ++ after, by simp [events]⟩, balanced_events _⟩
    · simpa [events] using hb (.closes :: (rest.events ++ after)) h
    · simpa [events] using hr after h

/-- Before a node begins, not more frames end than begin. -/
lemma split_of_mem_nodes {before : List Event} {f : Forest} {n : Beginning × Forest}
    (h : n ∈ f.nodes before) :
    ∃ p, n.1.before = before ++ p ∧ closings p ≤ openings p := by
  have hb : n.1 ∈ beginningsAfter before f.events := by
    rw [beginningsAfter_events]
    exact List.mem_map_of_mem h
  obtain ⟨p, q, he, hp⟩ := split_of_mem_beginningsAfter hb
  have hle := f.balanced_events.1 p (by simp [he])
  exact ⟨p, hp, by simpa using hle⟩

/-- The tree is left when the forest is trimmed. -/
def stays (full : Bool) (root : Instantiation) (below : Forest) : Bool :=
  full || matters root below

lemma trim_cons (full : Bool) (root : Instantiation) (below rest : Forest) :
    (cons root below rest).trim full =
      if stays full root below then cons root (below.trim full) (rest.trim full)
      else rest.trim full := by
  cases full
  · simp [trim_false, prune, stays]
  · simp [stays]

lemma trim_eq_nil_of_not_stays {full : Bool} {root : Instantiation} {below : Forest}
    (h : stays full root below = false) : below.trim full = nil := by
  obtain ⟨rfl, hm⟩ := Bool.or_eq_false_iff.mp h
  rw [trim_false, prune_eq_nil_of_not_matters hm]

/-- The nodes that are left of the forest. -/
def staying (full : Bool) (before : List Event) (f : Forest) : List (Beginning × Forest) :=
  (f.nodes before).filter fun n => stays full n.1.instantiation n.2

lemma staying_cons (full : Bool) (before : List Event) (root : Instantiation)
    (below rest : Forest) :
    (cons root below rest).staying full before =
      (if stays full root below then [(⟨before, root⟩, below)] else []) ++
        (below.staying full (before ++ [.opens root]) ++
          rest.staying full (before ++ .opens root :: (below.events ++ [.closes]))) := by
  rw [staying, nodes, List.filter_cons, List.filter_append]
  split <;> rfl

/-- The outline of what is left has a line for every node that is left, at the depth at which the
node begins. -/
lemma outline_trim (full : Bool) (before : List Event) (depth : Nat) (f : Forest)
    (hd : openings before + 1 = closings before + depth) :
    (f.trim full).outline depth = (f.staying full before).map fun n =>
      ⟨n.1.instantiation.name, some n.1.instantiation.kind, n.1.depth, (n.2.trim full).width⟩ := by
  induction f generalizing before depth with
  | nil => rfl
  | cons root below rest hb hr =>
    have hbelow := hb (before ++ [.opens root]) (depth + 1) (by simp; omega)
    have hrest := hr (before ++ .opens root :: (below.events ++ [.closes])) depth (by simp; omega)
    have hdepth : Beginning.depth ⟨before, root⟩ = depth := by
      simp [Beginning.depth, Beginning.upTo]
      omega
    rw [trim_cons, staying_cons]
    cases hs : stays full root below
    · rw [trim_eq_nil_of_not_stays hs] at hbelow
      simp [hrest, ← hbelow, outline]
    · simp [outline, hbelow, hrest, hdepth]

/-! ### Counting what hangs directly below -/

lemma not_under {b : Beginning} {base : List Event} (inner : List Event)
    (hb : b.before = base ++ inner) (h : ¬ Balanced inner) : ¬ b.Under base := by
  rintro ⟨inner', hb', hi⟩
  obtain rfl := List.append_cancel_left (hb.symm.trans hb')
  exact h hi

/-- What is left of a forest hangs, tree by tree, directly below what is open before it. -/
lemma countP_staying (full : Bool) (base lead : List Event) (hl : Balanced lead) (f : Forest) :
    (f.staying full (base ++ lead)).countP (·.1.Under base) = (f.trim full).width := by
  induction f generalizing lead with
  | nil => rfl
  | cons root below rest _ hr =>
    have hroot : Beginning.Under ⟨base ++ lead, root⟩ base := ⟨lead, rfl, hl⟩
    -- below the root, the root is open
    have hbelow : (below.staying full (base ++ lead ++ [.opens root])).countP
        (·.1.Under base) = 0 := by
      refine List.countP_eq_zero.mpr fun n hn => ?_
      obtain ⟨p, hp, hle⟩ := split_of_mem_nodes (List.mem_of_mem_filter hn)
      have hopen : ¬ Balanced (lead ++ .opens root :: p) := by
        intro h
        have hlead := hl.2
        have hall := h.2
        simp at hlead hall
        omega
      simpa using not_under _ (by simpa using hp) hopen
    have hrest := hr (lead ++ (cons root below nil).events) (hl.append (balanced_events _))
    simp only [events, ← List.append_assoc] at hrest
    rw [staying_cons, trim_cons, List.countP_append, List.countP_append, hbelow, hrest]
    cases hs : stays full root below
    · simp
    · simp [hroot, width, Nat.add_comm]

lemma kept_iff {full : Bool} {es : List Event} {b : Beginning} {below : Forest}
    (h : Spans es b.before b.instantiation below.events) :
    b.Kept full es ↔ stays full b.instantiation below = true := by
  rw [stays, Bool.or_eq_true, matters_eq_true_iff]
  refine or_congr_right ⟨?_, fun hj => ⟨below.events, h, hj⟩⟩
  rintro ⟨inner, hs, hj⟩
  exact h.inner_unique hs ▸ hj

/-- The kept beginnings in a part of the stream that comes from a forest. -/
lemma filter_kept {full : Bool} {es before after : List Event} {f : Forest}
    (h : es = before ++ f.events ++ after) :
    (beginningsAfter before f.events).filter (·.Kept full es) =
      (f.staying full before).map (·.1) := by
  rw [beginningsAfter_events, List.filter_map, staying]
  congr 1
  refine List.filter_congr fun n hn => ?_
  have hs := spans_of_mem_nodes after hn
  rw [← h] at hs
  simp [kept_iff hs]

/-- Where the stream comes to a forest, the kept frames directly below what is open there are the
trees that are left of the forest. -/
lemma countP_kept {full : Bool} {es base after : List Event} {f : Forest}
    (h : es = base ++ f.events ++ after) (ha : after = [] ∨ ∃ rest, after = .closes :: rest) :
    (keptBeginnings full es).countP (·.Under base) = (f.trim full).width := by
  -- before the forest the stream is too short, after it a frame has ended that was open there
  have hfirst : ((beginningsAfter [] base).filter (·.Kept full es)).countP (·.Under base) = 0 := by
    refine List.countP_eq_zero.mpr fun b hb => ?_
    obtain ⟨p, q, rfl, hp⟩ := split_of_mem_beginningsAfter (List.mem_of_mem_filter hb)
    rw [decide_eq_true_iff]
    rintro ⟨inner, hi, -⟩
    have := congrArg List.length (hp.symm.trans hi)
    simp at this
  have hlast : ((beginningsAfter (base ++ f.events) after).filter (·.Kept full es)).countP
      (·.Under base) = 0 := by
    refine List.countP_eq_zero.mpr fun b hb => ?_
    obtain ⟨p, q, rfl, hp⟩ := split_of_mem_beginningsAfter (List.mem_of_mem_filter hb)
    obtain ⟨p, rfl⟩ : ∃ p', p = .closes :: p' := by
      rcases p with _ | ⟨e, p⟩ <;> simp_all
    have hclosed : ¬ Balanced (f.events ++ .closes :: p) := f.balanced_events.not_append_closes
    simpa using not_under _ (by simpa using hp) hclosed
  have hmiddle := countP_staying full base [] (by simp [Balanced]) f
  rw [List.append_nil] at hmiddle
  calc (keptBeginnings full es).countP (·.Under base)
      = ((beginningsAfter base f.events).filter (·.Kept full es)).countP (·.Under base) := by
        conv_lhs => rw [keptBeginnings, beginnings, h, beginningsAfter_append,
          beginningsAfter_append]
        rw [List.nil_append, ← h, List.filter_append, List.filter_append, List.countP_append,
          List.countP_append, List.nil_append, hfirst, hlast, Nat.zero_add, Nat.add_zero]
    _ = (f.trim full).width := by
        rw [filter_kept h, List.countP_map, ← hmiddle]
        rfl

end Forest

namespace Evaluation

/-- The line of a beginning, when the frames that begin at `kept` are kept. -/
def lineOf (kept : List Beginning) (b : Beginning) : OutlineNode where
  name := b.instantiation.name
  kind := some b.instantiation.kind
  depth := b.depth
  children := kept.countP (·.Under b.upTo)

/-- **The outline lists the kept beginnings of the stream in order**, each with the number of frames
open there and the number of kept frames directly below it; the first line stands for the
evaluated expression and holds what is kept at the top. -/
theorem outline_eq_beginnings (full : Bool) (rootName result : String) {es : List Event}
    (h : Balanced es) :
    ∃ e, ofEvents full rootName result es = .ok e ∧ e.outline =
      ⟨rootName, none, 0, (keptBeginnings full es).countP (·.Under [])⟩ ::
        (keptBeginnings full es).map (lineOf (keptBeginnings full es)) := by
  obtain ⟨f, rfl⟩ := balanced_iff.mp h
  refine ⟨_, ofEvents_events full rootName result f, ?_⟩
  have htop : (keptBeginnings full f.events).countP (·.Under []) = (f.trim full).width :=
    Forest.countP_kept (List.append_nil _).symm (.inl rfl)
  have hkept : keptBeginnings full f.events = (f.staying full []).map (·.1) :=
    Forest.filter_kept (List.append_nil _).symm
  have hlines : (f.trim full).outline 1 =
      (keptBeginnings full f.events).map (lineOf (keptBeginnings full f.events)) := by
    rw [Forest.outline_trim full [] 1 f (by simp), hkept, List.map_map, ← hkept]
    refine List.map_congr_left fun n hn => ?_
    -- the stretch of the node tells where in the stream the forest below it is
    obtain ⟨after, hsplit⟩ := (Forest.spans_of_mem_nodes [] (List.mem_of_mem_filter hn)).split
    have hcount : (keptBeginnings full f.events).countP (·.Under n.1.upTo) =
        (n.2.trim full).width :=
      Forest.countP_kept (by simpa [Beginning.upTo] using hsplit) (.inr ⟨after, rfl⟩)
    simp [lineOf, hcount]
  rw [outline_ofForest, htop, hlines]

theorem outline_eq_beginnings_nested :
    Balanced nestedEvents ∧ ∃ e, ofEvents false "root" "int" nestedEvents = .ok e ∧
      e.outline = ⟨"root", none, 0, 2⟩ ::
        (keptBeginnings false nestedEvents).map (lineOf (keptBeginnings false nestedEvents)) := by
  have hb : Balanced nestedEvents := by decide
  obtain ⟨e, he, ho⟩ := outline_eq_beginnings false "root" "int" hb
  have htop : (keptBeginnings false nestedEvents).countP (·.Under []) = 2 := by decide
  exact ⟨hb, e, he, htop ▸ ho⟩

example : (keptBeginnings false nestedEvents).map (fun b => (b.instantiation.name, b.depth)) =
    [("a", 1), ("kept", 2), ("inner", 3), ("b", 2), ("c", 1)] := by decide

end Evaluation

end TemplateTrace
