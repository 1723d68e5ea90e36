import TemplateTrace.Evaluation.Assembly
import TemplateTrace.Evaluation
import TemplateTrace.Proofs.Forest
import Mathlib.Data.Finset.Max
import Mathlib.Data.List.Perm.Basic

/-!
Every frame hangs in one place.

While frames are put together, the index of every frame in the table stands once among the roots,
the children of the frames in the table and the children of the open frames. An end moves the list
of the closed frame into the table as it is, and gives out one new index, which is larger than all
before it; so the lists increase, and children stand before their parent.

A work loop that goes from the roots to the children takes an index off the pending ones and adds
those below it. What is pending, together with the children of the frames not yet visited, is what
is not yet visited; so the loop visits every frame once, and ends.
-/

namespace TemplateTrace

namespace Assembly

/-- The lists in which frames hang: the roots, the children of the frames in the table, and the
children of the open frames. -/
def holders (a : Assembly) : List (List FrameIndex) :=
  a.roots.toList ::
    (a.frames.toList.map (·.children.toList) ++ a.stack.map (·.children.toList))

/-- The indices that hang somewhere, each as often as it does. -/
def held (a : Assembly) : List FrameIndex := a.holders.flatten

/-- What is so after any events. -/
structure Tidy (a : Assembly) : Prop where
  earlier : ∀ (n : FrameIndex) (f : Frame), a.frames[n]? = some f → ∀ c ∈ f.children, c < n
  /-- Every index of the table, and no other, is held, and held once. -/
  once : a.held.Perm (List.range a.frames.size)
  increasing : ∀ ids ∈ a.holders, ids.Pairwise (· < ·)

variable {a : Assembly}

lemma Tidy.lt_size (h : a.Tidy) {n : FrameIndex} (hn : n ∈ a.held) : n < a.frames.size :=
  List.mem_range.mp (h.once.mem_iff.mp hn)

lemma mem_held {ids : List FrameIndex} {n : FrameIndex} (hi : ids ∈ a.holders) (hn : n ∈ ids) :
    n ∈ a.held := List.mem_flatten.mpr ⟨ids, hi, hn⟩

/-! ### Attaching an index -/

@[simp] lemma frames_attach (a : Assembly) (n : FrameIndex) : (a.attach n).frames = a.frames := by
  unfold attach
  split <;> rfl

/-- One list takes the index at its end, and the others stay. -/
lemma holders_attach (a : Assembly) (n : FrameIndex) :
    ∃ before ids after, a.holders = before ++ ids :: after ∧
      (a.attach n).holders = before ++ (ids ++ [n]) :: after := by
  rcases hs : a.stack with _ | ⟨parent, outer⟩
  · exact ⟨[], a.roots.toList, a.frames.toList.map (·.children.toList), by simp [holders, hs],
      by simp [holders, attach, hs]⟩
  · exact ⟨a.roots.toList :: a.frames.toList.map (·.children.toList), parent.children.toList,
      outer.map (·.children.toList), by simp [holders, hs], by simp [holders, attach, hs]⟩

lemma held_attach (a : Assembly) (n : FrameIndex) : (a.attach n).held.Perm (a.held ++ [n]) := by
  obtain ⟨before, ids, after, ha, hn⟩ := holders_attach a n
  rw [held, held, ha, hn]
  simp only [List.flatten_append, List.flatten_cons, List.append_assoc]
  exact (List.perm_append_comm.append_left ids).append_left _

lemma increasing_attach {n : FrameIndex} (h : ∀ ids ∈ a.holders, ids.Pairwise (· < ·))
    (hn : ∀ m ∈ a.held, m < n) : ∀ ids ∈ (a.attach n).holders, ids.Pairwise (· < ·) := by
  obtain ⟨before, ids, after, ha, hattach⟩ := holders_attach a n
  have hids : ids ∈ a.holders := by simp [ha]
  intro l hl
  rw [hattach, List.mem_append, List.mem_cons] at hl
  rcases hl with hl | rfl | hl
  · exact h l (by simp [ha, hl])
  · refine List.pairwise_append.mpr ⟨h ids hids, by simp, fun m hm k hk => ?_⟩
    obtain rfl : k = n := by simpa using hk
    exact hn m (mem_held hids hm)
  · exact h l (by simp [ha, hl])

/-! ### A step -/

/-- One more event was handled. -/
def tick (a : Assembly) : Assembly := { a with handled := a.handled + 1 }

/-- The innermost frame has moved into the table. -/
def shelve (a : Assembly) (f : UnfinishedFrame) (outer : List UnfinishedFrame) : Assembly :=
  { a with frames := a.frames.push ⟨f.instantiation, f.children⟩, stack := outer }

/-- What an event can do: open a frame, fail, drop a frame or move it into the table. -/
lemma step_cases (a : Assembly) (e : Event) :
    (∃ i, e = .opens i ∧ (a.step e).2 = { a.tick with stack := ⟨i, #[]⟩ :: a.stack }) ∨
    (e = .closes ∧ a.stack = [] ∧ (a.step e).2 = a.tick) ∨
    (∃ f outer, e = .closes ∧ a.stack = f :: outer ∧ drops a.full f = true ∧
      (a.step e).2 = { a.tick with stack := outer }) ∨
    (∃ f outer, e = .closes ∧ a.stack = f :: outer ∧ drops a.full f = false ∧
      (a.step e).2 = (a.tick.shelve f outer).attach a.frames.size) := by
  cases e with
  | opens i => exact .inl ⟨i, rfl, rfl⟩
  | closes =>
    rcases hs : a.stack with _ | ⟨f, outer⟩
    · exact .inr (.inl ⟨rfl, rfl, by simp [step, hs, tick]⟩)
    · cases hd : drops a.full f
      · refine .inr (.inr (.inr ⟨f, outer, rfl, rfl, hd, ?_⟩))
        simp [step, hs, enter, hd, tick, shelve]
      · refine .inr (.inr (.inl ⟨f, outer, rfl, rfl, hd, ?_⟩))
        simp [step, hs, enter, hd, tick]

lemma Tidy.tick (h : a.Tidy) : a.tick.Tidy := ⟨h.earlier, h.once, h.increasing⟩

/-- A frame that opens holds nothing. -/
lemma Tidy.opens (h : a.Tidy) (i : Instantiation) :
    ({ a with stack := ⟨i, #[]⟩ :: a.stack } : Assembly).Tidy := by
  refine ⟨h.earlier, by simpa [held, holders] using h.once, fun ids hi => ?_⟩
  simp only [holders, List.map_cons, List.mem_cons, List.mem_append] at hi
  rcases hi with hi | hi | rfl | hi
  · exact h.increasing ids (by simp [holders, hi])
  · exact h.increasing ids (by simp [holders, hi])
  · simp
  · exact h.increasing ids (by simp [holders, hi])

/-- A frame without children can go. -/
lemma Tidy.drop (h : a.Tidy) {f : UnfinishedFrame} {outer : List UnfinishedFrame}
    (hs : a.stack = f :: outer) (hf : f.children = #[]) :
    ({ a with stack := outer } : Assembly).Tidy := by
  have hheld : ({ a with stack := outer } : Assembly).held = a.held := by
    simp [held, holders, hs, hf]
  refine ⟨h.earlier, hheld ▸ h.once, fun ids hi => h.increasing ids ?_⟩
  simp only [holders, hs, List.map_cons, List.mem_cons, List.mem_append] at hi ⊢
  tauto

/-- A frame takes its children with it into the table. -/
lemma holders_shelve {f : UnfinishedFrame} {outer : List UnfinishedFrame}
    (hs : a.stack = f :: outer) : (a.shelve f outer).holders = a.holders := by
  simp [holders, shelve, hs]

lemma Tidy.attach_shelve (h : a.Tidy) {f : UnfinishedFrame} {outer : List UnfinishedFrame}
    (hs : a.stack = f :: outer) : ((a.shelve f outer).attach a.frames.size).Tidy := by
  have hholders := holders_shelve hs
  have hheld : (a.shelve f outer).held = a.held := by rw [held, hholders, held]
  refine ⟨fun n g hg c hc => ?_, ?_, ?_⟩
  · rw [frames_attach, shelve, Array.getElem?_push] at hg
    split at hg
    · next hn =>
      obtain rfl := Option.some.inj hg
      have hf : f.children.toList ∈ a.holders := by simp [holders, hs]
      exact hn ▸ h.lt_size (mem_held hf (Array.mem_toList_iff.mpr hc))
    · exact h.earlier n g hg c hc
  · rw [frames_attach, shelve, Array.size_push, List.range_succ]
    refine (held_attach _ _).trans ?_
    rw [← shelve, hheld]
    exact h.once.append_right _
  · refine increasing_attach (hholders ▸ h.increasing) fun m hm => ?_
    exact h.lt_size (hheld ▸ hm)

lemma Tidy.step (h : a.Tidy) (e : Event) : (a.step e).2.Tidy := by
  obtain ⟨i, -, hb⟩ | ⟨-, -, hb⟩ | ⟨f, outer, -, hs, hd, hb⟩ | ⟨f, outer, -, hs, -, hb⟩ :=
    step_cases a e
  · exact hb ▸ h.tick.opens i
  · exact hb ▸ h.tick
  · simp only [drops, Bool.and_eq_true, Array.isEmpty_iff] at hd
    exact hb ▸ h.tick.drop hs hd.2
  · exact hb ▸ h.tick.attach_shelve hs

lemma Tidy.run (h : a.Tidy) (es : List Event) : (a.run es).Tidy := by
  induction es generalizing a with
  | nil => exact h
  | cons e es ih => exact ih (h.step e)

lemma tidy_start (full : Bool) : ({ full } : Assembly).Tidy :=
  ⟨by simp, by simp [held, holders], by simp [holders]⟩

/-! ### What is in the table stays -/

lemma prefix_step (a : Assembly) (e : Event) :
    a.frames.toList <+: (a.step e).2.frames.toList ∧
      a.roots.toList <+: (a.step e).2.roots.toList := by
  obtain ⟨i, -, hb⟩ | ⟨-, -, hb⟩ | ⟨f, outer, -, -, -, hb⟩ | ⟨f, outer, -, -, -, hb⟩ :=
    step_cases a e <;> rw [hb]
  · exact ⟨List.prefix_refl _, List.prefix_refl _⟩
  · exact ⟨List.prefix_refl _, List.prefix_refl _⟩
  · exact ⟨List.prefix_refl _, List.prefix_refl _⟩
  · refine ⟨by simp [shelve, tick], ?_⟩
    unfold attach
    split <;> simp [shelve, tick]

/-- Where nothing fails, going on after failures makes no difference. -/
lemma run_of_feed {b : Assembly} {es : List Event} (h : a.feed es = .ok b) : a.run es = b := by
  induction es generalizing a with
  | nil => exact Except.ok.inj h
  | cons e es ih =>
    rw [feed] at h
    split at h
    · simp at h
    · next he =>
      rw [run_cons, he]
      exact ih h

lemma finish_eq_ok {rootName result : String} {ev : Evaluation}
    (h : a.finish rootName result = .ok ev) :
    a.stack = [] ∧ ev = ⟨rootName, result, a.frames, a.roots⟩ := by
  unfold finish at h
  split at h
  · next hs => exact ⟨List.isEmpty_iff.mp hs, (Except.ok.inj h).symm⟩
  · simp at h

lemma finish_run_of_ofEvents {full : Bool} {rootName result : String} {es : List Event}
    {ev : Evaluation} (h : Evaluation.ofEvents full rootName result es = .ok ev) :
    (run { full } es).finish rootName result = .ok ev := by
  unfold Evaluation.ofEvents at h
  split at h
  · simp at h
  · next ha => rw [run_of_feed ha, h]

end Assembly

/-! ### The work loops -/

namespace Evaluation

/-- The loop that starts with the pending visits, and goes on until none is pending, makes these
visits; all of them find their frames in the table. -/
inductive Loop (frames : Array Frame) (order : List Visit → List Visit) :
    List Visit → List Visit → Prop
  | done : Loop frames order [] []
  | visit {id : FrameIndex} {depth : Nat} {frame : Frame} {pending visits : List Visit}
      (found : frames[id]? = some frame)
      (rest : Loop frames order
        (order (frame.children.toList.map (·, depth + 1)) ++ pending) visits) :
      Loop frames order ((id, depth) :: pending) ((id, depth) :: visits)

/-- What hangs below the frame at the index. -/
def childrenAt (frames : Array Frame) (n : FrameIndex) : List FrameIndex :=
  frames[n]?.elim [] (·.children.toList)

variable {frames : Array Frame} {order : List Visit → List Visit}

lemma map_order (ho : ∀ vs, (order vs).Perm vs) (ids : List FrameIndex) (depth : Nat) :
    ((order (ids.map (·, depth))).map (·.1)).Perm ids := by
  have h := (ho (ids.map (·, depth))).map (·.1)
  simpa [Function.comp_def] using h

/-- Among any frames there is one that is no child of them, the last one. -/
lemma eq_nil_of_perm {ids : List FrameIndex}
    (hlt : ∀ n, ∀ c ∈ childrenAt frames n, c < n)
    (h : (ids.flatMap (childrenAt frames)).Perm ids) : ids = [] := by
  by_contra hne
  obtain ⟨m, hm, hmax⟩ := ids.toFinset.exists_max_image id (by simpa using hne)
  obtain ⟨n, hn, hc⟩ := List.mem_flatMap.mp (h.mem_iff.mpr (List.mem_toFinset.mp hm))
  have hle : n ≤ m := hmax n (List.mem_toFinset.mpr hn)
  exact absurd (hlt n m hc) (Nat.not_lt.mpr hle)

/-- **The loop visits what is left once each**, if what is left hangs once each among the pending
visits and below what is left. -/
lemma loop_walk (ho : ∀ vs, (order vs).Perm vs) (hlt : ∀ n, ∀ c ∈ childrenAt frames n, c < n)
    (left : List FrameIndex) (pending : List Visit) (hleft : ∀ n ∈ left, n < frames.size)
    (h : (pending.map (·.1) ++ left.flatMap (childrenAt frames)).Perm left) :
    Loop frames order pending (walk frames order left.length pending) ∧
      ((walk frames order left.length pending).map (·.1)).Perm left := by
  induction hl : left.length generalizing left pending with
  | zero =>
    obtain rfl := List.length_eq_zero_iff.mp hl
    obtain rfl : pending = [] := by simpa using h
    exact ⟨.done, .nil⟩
  | succ k ih =>
    rcases pending with _ | ⟨⟨id, depth⟩, pending⟩
    · obtain rfl := eq_nil_of_perm hlt (by simpa using h)
      simp at hl
    have hid : id ∈ left := h.mem_iff.mp (by simp)
    have herase := List.perm_cons_erase hid
    obtain ⟨frame, hf⟩ : ∃ frame, frames[id]? = some frame :=
      ⟨_, Array.getElem?_eq_getElem (hleft id hid)⟩
    have hbelow : below frames (id, depth) = (childrenAt frames id).map (·, depth + 1) := by
      simp [below, childrenAt, hf]
    -- the children of the visited frame change from what is below it to what is pending
    have hnext : ((order (below frames (id, depth)) ++ pending).map (·.1) ++
        (left.erase id).flatMap (childrenAt frames)).Perm (left.erase id) := by
      have hsplit := (herase.flatMap_right (childrenAt frames)).append_left (pending.map (·.1))
      refine List.Perm.cons_inv (a := id) (.trans (.cons id ?_) (h.trans herase))
      refine .trans ?_ hsplit.symm
      rw [hbelow, List.map_append, List.flatMap_cons, ← List.append_assoc]
      exact .append_right _ (.trans (.append_right _ (map_order ho _ _)) List.perm_append_comm)
    obtain ⟨hloop, hperm⟩ := ih _ _ (fun n hn => hleft n (List.mem_of_mem_erase hn)) hnext
      (by rw [List.length_erase_of_mem hid, hl, Nat.add_sub_cancel])
    rw [walk_cons]
    refine ⟨.visit hf ?_, (hperm.cons id).trans herase.symm⟩
    simpa [below, hf] using hloop

/-- The children of all frames, frame by frame. -/
lemma flatMap_childrenAt (frames : Array Frame) :
    (List.range frames.size).flatMap (childrenAt frames) =
      (frames.toList.map (·.children.toList)).flatten := by
  rw [List.flatMap]
  congr 1
  refine List.ext_getElem (by simp) fun n h₁ h₂ => ?_
  simp [childrenAt, Array.getElem?_eq_getElem (show n < frames.size by simpa using h₁)]

end Evaluation

namespace Assembly

open Evaluation

/-- From the roots of a finished tree the loop visits every frame of the table once. -/
lemma Tidy.visits {a : Assembly} {order : List Visit → List Visit} (h : a.Tidy)
    (hs : a.stack = []) (ho : ∀ vs, (order vs).Perm vs) (rootName result : String) :
    let ev : Evaluation := ⟨rootName, result, a.frames, a.roots⟩
    Loop ev.frames order (order (ev.roots.toList.map (·, 1))) (ev.visits order) ∧
      ((ev.visits order).map (·.1)).Perm (List.range ev.size) := by
  have hlt (n : FrameIndex) : ∀ c ∈ childrenAt a.frames n, c < n := by
    intro c hc
    unfold childrenAt at hc
    cases hf : a.frames[n]? with
    | none => simp [hf] at hc
    | some f => exact h.earlier n f hf c (by simpa [hf] using hc)
  have hheld : a.held =
      a.roots.toList ++ (List.range a.frames.size).flatMap (childrenAt a.frames) := by
    simp [held, holders, hs, flatMap_childrenAt]
  have hloop := loop_walk ho hlt (List.range a.frames.size) (order (a.roots.toList.map (·, 1)))
    (by simp) ((map_order ho _ _).append_right _ |>.trans (hheld ▸ h.once))
  rwa [List.length_range] at hloop

/-- **Every frame hangs in one place, and every visit finds its frame.** After any events, those
that fail included, each index of the table is held once, in lists that increase, and children
stand before their parents; one more event only adds to the table and to the roots. So of a
finished tree both work loops, the one in pre-order and the one of the summary, end when they have
visited every frame once. -/
theorem run_tidy (full : Bool) (es : List Event) :
    (run { full } es).Tidy ∧
      (∀ e : Event,
        (run { full } es).frames.toList <+: ((run { full } es).step e).2.frames.toList ∧
        (run { full } es).roots.toList <+: ((run { full } es).step e).2.roots.toList) ∧
      ∀ rootName result ev,
        ((run { full } es).finish rootName result = .ok ev ∨
          ofEvents full rootName result es = .ok ev) →
        ∀ order : List Visit → List Visit, order = id ∨ order = List.reverse →
          Loop ev.frames order (order (ev.roots.toList.map (·, 1))) (ev.visits order) ∧
            ((ev.visits order).map (·.1)).Perm (List.range ev.size) := by
  have htidy := (tidy_start full).run es
  refine ⟨htidy, prefix_step _, fun rootName result ev hev order horder => ?_⟩
  have hfinish := hev.elim (fun h => h) finish_run_of_ofEvents
  obtain ⟨hs, rfl⟩ := finish_eq_ok hfinish
  refine htidy.visits hs (fun vs => ?_) rootName result
  rcases horder with rfl | rfl
  · exact .refl vs
  · exact List.reverse_perm vs

/-- A stream that begins with an end without a beginning, and still has a tree. -/
theorem run_tidy_nested :
    ∃ ev, (run { full := false } (.closes :: nestedEvents)).finish "root" "int" = .ok ev ∧
      ev.size = 5 ∧ ((ev.visits List.reverse).map (·.1)).Perm (List.range 5) := by
  refine ⟨_, rfl, rfl, ?_⟩
  exact ((run_tidy false (.closes :: nestedEvents)).2.2 "root" "int" _ (.inl rfl) _ (.inr rfl)).2

end Assembly

end TemplateTrace
