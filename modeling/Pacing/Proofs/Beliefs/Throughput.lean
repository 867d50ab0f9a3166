import Mathlib.Data.List.Pairwise
import Pacing.Beliefs.Throughput
import Pacing.Proofs.Config
import Pacing.Proofs.Ring

/-!
# What a pass measures

The walk of a pass goes over the windows of the history, newest first. Here they are listed without the
walk, and what it marks and learns is read off that list: a window is measured if it is unused, had ended
when the acked segment was sent, and no sample from its start on shows a queue or a loss.
-/

namespace Pacing

variable {α : Type}

open Scalar

namespace Beliefs

/-- A stretch of the history that can show a throughput. -/
structure Window (α : Type) where
  /-- How deep below the newest sample it starts. -/
  depth : Nat
  st : Sample α
  et : Sample α
  /-- No sample from its start to the newest one shows a queue or a loss. -/
  clean : Bool

/-! ## Marks -/

theorem below?_foldl_mark {r : Ring (Sample α)} {used : List Nat} (h : ∀ d ∈ used, d < r.size) (depth : Nat) :
    (used.foldl (fun r d => r.modify (r.size - 1 - d) Sample.markProcessed) r).below? depth =
      (r.below? depth).map fun s => if depth ∈ used then s.markProcessed else s := by
  induction used generalizing r with
  | nil => simp
  | cons d used ih =>
      obtain ⟨hd, hused⟩ := List.forall_mem_cons.mp h
      rw [List.foldl_cons, ih (by simpa using hused), Ring.below?_modify _ hd, Option.map_map]
      congr 1
      funext s
      by_cases he : depth = d <;> by_cases hmem : depth ∈ used <;> simp_all [Sample.markProcessed]

/-! ## Windows -/

/-- Where a window ends, counted from the newest sample and from the oldest. -/
theorem getElem?_end {span : Nat} {st : Sample α} {older newer : List (Sample α)} (h : span ≤ newer.length) :
    (st :: newer)[span]? = (newer.reverse ++ st :: older)[newer.length - span]? := by
  have hlt : newer.length - span < (st :: newer).length := Nat.lt_succ_of_le (Nat.sub_le ..)
  calc (st :: newer)[span]?
      = (st :: newer).reverse[newer.length - span]? := by
        rw [List.getElem?_reverse hlt, List.length_cons, Nat.add_sub_cancel, Nat.sub_sub_self h]
    _ = ((st :: newer).reverse ++ older)[newer.length - span]? :=
        (List.getElem?_append_left (by rwa [List.length_reverse])).symm
    _ = (newer.reverse ++ st :: older)[newer.length - span]? := by
        rw [List.reverse_cons, List.append_assoc, List.singleton_append]

variable [Scalar α]

namespace Window

def length (w : Window α) : α := w.st.lengthTo w.et

def rate (w : Window α) : α := w.st.rateTo w.et

/-- Whether the window was over when no more than `anchor` had been delivered. -/
def ended (anchor : Nat) (w : Window α) : Bool := w.et.cumDelivered ≤ anchor

/-- A pass can use the window: no pass has used it, and it ended in time. -/
def Usable (anchor : Nat) (w : Window α) : Prop := w.st.processed = false ∧ w.ended anchor = true

omit [Scalar α] in
theorem usable_iff {anchor : Nat} {w : Window α} :
    ¬ (w.st.processed || !w.ended anchor) = true ↔ w.Usable anchor := by
  simp [Usable]

/-- Whether the window tells a throughput: it ended in time, without a queue, and has a length. -/
def tells (anchor : Nat) (w : Window α) : Bool :=
  w.ended anchor && w.clean && decide (timeEpsilon < w.length)

/-- The window that starts at a sample, given all newer ones, oldest first. -/
def from? (span : Nat) (threshold : α) (st : Sample α) (newer : List (Sample α)) : Option (Window α) :=
  (st :: newer)[span]?.map fun et =>
    ⟨newer.length, st, et, (st :: newer).all (·.isUnderutilized threshold)⟩

theorem bestOf_eq (best : α) (w : Window α) :
    bestOf best w.st w.et = if timeEpsilon < w.length then Scalar.max best w.rate else best := rfl

end Window

/-- The windows that start in `older`, which is newest first, where `newer` is the rest of the history,
oldest first. -/
def windowsIn (span : Nat) (threshold : α) : List (Sample α) → List (Sample α) → List (Window α)
  | [], _ => []
  | st :: older, newer =>
    (Window.from? span threshold st newer).toList ++ windowsIn span threshold older (st :: newer)

/-- The windows of a history, newest first. -/
def windows (b : Beliefs α) (c : Config α) (history : List (Sample α)) : List (Window α) :=
  windowsIn c.measurementSpan (b.threshold c) history.reverse []

/-- The windows whose throughput a pass takes in. -/
def learntFrom (b : Beliefs α) (c : Config α) (anchor : Nat) (history : List (Sample α)) : List (Window α) :=
  (b.windows c history).filter fun w => !w.st.processed && w.tells anchor

/-! ## Lists of windows -/

section windows

variable {span : Nat} {threshold : α} {older newer : List (Sample α)} {w : Window α}

theorem Window.from?_eq_none {st : Sample α} (h : newer.length < span) :
    Window.from? span threshold st newer = none := by
  simp [from?, List.getElem?_eq_none (l := st :: newer) h]

theorem mem_windowsIn :
    w ∈ windowsIn span threshold older newer ↔
      ∃ between st oldest, older = between ++ st :: oldest ∧
        Window.from? span threshold st (between.reverse ++ newer) = some w := by
  induction older generalizing newer with
  | nil => simp [windowsIn]
  | cons st older ih =>
      rw [windowsIn, List.mem_append, Option.mem_toList, ih]
      constructor
      · rintro (h | ⟨between, st', oldest, rfl, h⟩)
        · exact ⟨[], st, older, rfl, h⟩
        · exact ⟨st :: between, st', oldest, rfl, by simpa using h⟩
      · rintro ⟨_ | ⟨st', between⟩, st'', oldest, heq, h⟩ <;> cases heq
        · exact .inl h
        · exact .inr ⟨between, st'', oldest, rfl, by simpa using h⟩

theorem pairwise_windowsIn :
    (windowsIn span threshold older newer).Pairwise fun w w' =>
      w.depth < w'.depth ∧ (w'.clean = true → w.clean = true) := by
  induction older generalizing newer with
  | nil => exact .nil
  | cons st older ih =>
      refine List.pairwise_append.mpr ⟨?_, ih, ?_⟩
      · cases Window.from? span threshold st newer <;> simp
      · intro w hw w' hw'
        obtain ⟨between, st', oldest, rfl, h'⟩ := mem_windowsIn.mp hw'
        rw [Option.mem_toList] at hw
        simp only [Window.from?, Option.map_eq_some_iff] at hw h'
        obtain ⟨_, -, rfl⟩ := hw
        obtain ⟨_, -, rfl⟩ := h'
        refine ⟨by simp; omega, fun h => ?_⟩
        simp only [List.all_cons, List.all_append, Bool.and_eq_true] at h ⊢
        exact ⟨h.2.2.1, h.2.2.2⟩

theorem mem_windows {b : Beliefs α} {c : Config α} {history : List (Sample α)} :
    w ∈ b.windows c history ↔
      ∃ older st newer, history = older ++ st :: newer ∧
        Window.from? c.measurementSpan (b.threshold c) st newer = some w := by
  rw [windows, mem_windowsIn]
  constructor
  · rintro ⟨between, st, oldest, h, hw⟩
    refine ⟨oldest.reverse, st, between.reverse, ?_, by simpa using hw⟩
    rw [← history.reverse_reverse, h]
    simp
  · rintro ⟨older, st, newer, rfl, hw⟩
    exact ⟨newer.reverse, st, older.reverse, by simp, by simpa using hw⟩

end windows

/-! ## The walk -/

/-- What is left of a pass over some windows. -/
def collect (anchor : Nat) : List (Window α) → α → Pass α
  | [], best => ⟨[], best⟩
  | w :: ws, best =>
    if w.st.processed || !w.ended anchor then collect anchor ws best
    else if w.clean then
      let rest := collect anchor ws (bestOf best w.st w.et)
      { rest with used := w.depth :: rest.used }
    else
      ⟨[w.depth], best⟩

theorem walk_eq_collect (span anchor : Nat) (threshold : α) (older newer : List (Sample α)) (best : α) :
    Pass.walk span anchor threshold older ((newer.reverse ++ older).drop (newer.length - span)) newer.length
        (newer.all (·.isUnderutilized threshold)) best =
      collect anchor (windowsIn span threshold older newer) best := by
  -- The walk has `newer` only as a count, a flag and the ends still ahead, so `newer` has to vary.
  induction older generalizing newer best with
  | nil => rfl
  | cons st older ih =>
      have hclean : (newer.all (·.isUnderutilized threshold) && st.isUnderutilized threshold) =
          (st :: newer).all (·.isUnderutilized threshold) := Bool.and_comm ..
      have hsamples : (st :: newer).reverse ++ older = newer.reverse ++ st :: older := by simp
      have ih := ih (st :: newer)
      rw [List.length_cons, ← hclean, hsamples] at ih
      rw [windowsIn]
      by_cases hlt : newer.length < span
      · rw [Nat.sub_eq_zero_of_le hlt, List.drop_zero] at ih
        obtain ⟨et, ends, hends⟩ := List.exists_cons_of_ne_nil (l := newer.reverse ++ st :: older) (by simp)
        rw [hends] at ih
        rw [Nat.sub_eq_zero_of_le (Nat.le_of_lt hlt), List.drop_zero, hends, Pass.walk, if_pos hlt, ih,
          Window.from?_eq_none hlt]
        rfl
      · rw [Nat.not_lt] at hlt
        have hpos : newer.length - span < (newer.reverse ++ st :: older).length := by
          rw [List.length_append, List.length_reverse, List.length_cons]
          omega
        rw [Nat.succ_sub hlt] at ih
        rw [List.drop_eq_getElem_cons hpos, Pass.walk, if_neg (Nat.not_lt.mpr hlt), Window.from?,
          getElem?_end hlt, List.getElem?_eq_getElem hpos, hclean]
        rw [hclean] at ih
        have hended (n : Nat) : (!decide (n ≤ anchor)) = decide (anchor < n) := by
          simp only [← decide_not, Nat.not_le]
        simp only [ih, Option.map_some, Option.toList_some, List.singleton_append, collect, Window.ended,
          hended]

theorem pass_eq (b : Beliefs α) (c : Config α) (anchor : Nat) (history : List (Sample α)) :
    b.pass c anchor history = collect anchor (b.windows c history) c.initMinC := by
  have hspan := c.zero_lt_measurementSpan
  rw [pass, windows]
  cases history.reverse with
  | nil => rfl
  | cons newest older =>
      have hwalk := walk_eq_collect c.measurementSpan anchor (b.threshold c) older [newest]
        c.initMinC
      rw [List.length_singleton, Nat.sub_eq_zero_of_le hspan, List.drop_zero] at hwalk
      rw [windowsIn, Window.from?_eq_none hspan]
      simpa using hwalk

/-! ## What a pass marks and learns -/

section collect

variable {anchor : Nat} {ws : List (Window α)} {best : α}

/-- The windows used are those that can be used, down to the first of them that is not clean. -/
theorem mem_used_collect (hws : ws.Pairwise fun w w' => w.depth < w'.depth) {depth : Nat} :
    depth ∈ (collect anchor ws best).used ↔ ∃ w ∈ ws, w.depth = depth ∧ w.Usable anchor ∧
      ∀ w' ∈ ws, w'.depth < w.depth → w'.Usable anchor → w'.clean = true := by
  induction ws generalizing best with
  | nil => simp [collect]
  | cons w ws ih =>
      obtain ⟨hfirst, hws⟩ := List.pairwise_cons.mp hws
      have hnewest : ∀ w' ∈ w :: ws, ¬ w'.depth < w.depth :=
        List.forall_mem_cons.mpr ⟨Nat.lt_irrefl _, fun w' h => Nat.lt_asymm (hfirst w' h)⟩
      unfold collect
      split_ifs with hskip hclean
      · have hno : ¬ w.Usable anchor := fun h => Window.usable_iff.mpr h hskip
        rw [ih hws]
        constructor
        · rintro ⟨w₁, h₁, hd, hu, hall⟩
          refine ⟨w₁, List.mem_cons_of_mem _ h₁, hd, hu, ?_⟩
          exact List.forall_mem_cons.mpr ⟨fun _ h => absurd h hno, hall⟩
        · rintro ⟨w₁, h₁, hd, hu, hall⟩
          rcases List.mem_cons.mp h₁ with rfl | h₁
          · exact absurd hu hno
          · exact ⟨w₁, h₁, hd, hu, (List.forall_mem_cons.mp hall).2⟩
      · rw [List.mem_cons, ih hws]
        constructor
        · rintro (rfl | ⟨w₁, h₁, hd, hu, hall⟩)
          · exact ⟨w, List.mem_cons_self, rfl, Window.usable_iff.mp hskip, fun w' h hlt => absurd hlt (hnewest w' h)⟩
          · refine ⟨w₁, List.mem_cons_of_mem _ h₁, hd, hu, ?_⟩
            exact List.forall_mem_cons.mpr ⟨fun _ _ => hclean, hall⟩
        · rintro ⟨w₁, h₁, rfl, hu, hall⟩
          rcases List.mem_cons.mp h₁ with rfl | h₁
          · exact .inl rfl
          · exact .inr ⟨w₁, h₁, rfl, hu, (List.forall_mem_cons.mp hall).2⟩
      -- The walk stops here, and all windows that are left lie deeper.
      · constructor
        · intro hd
          cases List.mem_singleton.mp hd
          exact ⟨w, List.mem_cons_self, rfl, Window.usable_iff.mp hskip, fun w' h hlt => absurd hlt (hnewest w' h)⟩
        · rintro ⟨w₁, h₁, rfl, -, hall⟩
          rcases List.mem_cons.mp h₁ with rfl | h₁
          · exact List.mem_singleton_self _
          · have husable := Window.usable_iff.mp hskip
            exact absurd (hall w List.mem_cons_self (hfirst w₁ h₁) husable) hclean

theorem best_collect (hws : ws.Pairwise fun w w' => w'.clean = true → w.clean = true) :
    (collect anchor ws best).best =
      ((ws.filter fun w => !w.st.processed && w.tells anchor).map Window.rate).foldl Scalar.max best := by
  induction ws generalizing best with
  | nil => rfl
  | cons w ws ih =>
      obtain ⟨hfirst, hws⟩ := List.pairwise_cons.mp hws
      unfold collect
      split_ifs with husable hclean
      · rw [ih hws, List.filter_cons_of_neg]
        simp only [Window.tells]
        revert husable
        cases w.st.processed <;> simp +contextual
      · have hfresh : w.st.processed = false ∧ w.ended anchor = true := by simpa using husable
        rw [ih hws, Window.bestOf_eq]
        by_cases hlong : timeEpsilon < w.length
        · rw [if_pos hlong, List.filter_cons_of_pos (by simp [Window.tells, hfresh, hclean, hlong])]
          rfl
        · rw [if_neg hlong, List.filter_cons_of_neg (by simp [Window.tells, hlong])]
      · have hnone : ((w :: ws).filter fun w => !w.st.processed && w.tells anchor) = [] := by
          refine List.filter_eq_nil_iff.mpr fun w' hw' htells => hclean ?_
          have hclean' : w'.clean = true := by simp_all [Window.tells]
          rcases List.mem_cons.mp hw' with rfl | hw'
          · exact hclean'
          · exact hfirst w' hw' hclean'
        rw [hnone]
        rfl

end collect

variable {b : Beliefs α} {c : Config α} {anchor : Nat}

theorem pairwise_windows (history : List (Sample α)) :
    (b.windows c history).Pairwise fun w w' => w.depth < w'.depth ∧ (w'.clean = true → w.clean = true) :=
  pairwise_windowsIn

theorem eq_of_depth_eq {history : List (Sample α)} {w w' : Window α} (hw : w ∈ b.windows c history)
    (hw' : w' ∈ b.windows c history) (h : w.depth = w'.depth) : w = w' := by
  by_contra hne
  let apart (w w' : Window α) := w.depth ≠ w'.depth
  have hsymm : Std.Symm apart := ⟨fun _ _ => Ne.symm⟩
  have hapart : (b.windows c history).Pairwise apart :=
    (pairwise_windows history).imp fun hlt => Nat.ne_of_lt hlt.1
  exact hapart.forall hw hw' hne h

/-- A window lies in the history, and is clean if all samples from its start on are. -/
theorem below?_of_mem_windows {r : Ring (Sample α)} {w : Window α} (h : w ∈ b.windows c r.toList) :
    c.measurementSpan ≤ w.depth ∧ r.below? w.depth = some w.st ∧
      r.below? (w.depth - c.measurementSpan) = some w.et ∧
      (w.clean = true ↔ ∀ d ≤ w.depth, ∀ x, r.below? d = some x →
        x.isUnderutilized (b.threshold c) = true) := by
  obtain ⟨older, st, newer, hsplit, hw⟩ := mem_windows.mp h
  simp only [Window.from?, Option.map_eq_some_iff] at hw
  obtain ⟨et, het, rfl⟩ := hw
  have hle : c.measurementSpan ≤ newer.length :=
    Nat.le_of_lt_succ (by simpa using (List.getElem?_eq_some_iff.mp het).1)
  have hbelow (i : Nat) (hi : i ≤ newer.length) : r.below? i = (st :: newer)[newer.length - i]? := by
    rw [Ring.below?, hsplit, List.reverse_append, List.getElem?_append_left (by simp; omega),
      List.getElem?_reverse (by simp; omega)]
    congr 1
  refine ⟨hle, ?_, ?_, ?_⟩
  · rw [hbelow _ (Nat.le_refl _), Nat.sub_self]
    rfl
  · rw [hbelow _ (Nat.sub_le ..), Nat.sub_sub_self hle, het]
  · rw [List.all_eq_true]
    constructor
    · intro hall d hd x hx
      exact hall x (List.mem_of_getElem? (hbelow d hd ▸ hx))
    · intro hall x hx
      obtain ⟨i, hi, rfl⟩ := List.mem_iff_getElem.mp hx
      have hi : i ≤ newer.length := Nat.le_of_lt_succ (by simpa using hi)
      refine hall (newer.length - i) (Nat.sub_le ..) _ ?_
      rw [hbelow _ (Nat.sub_le ..), Nat.sub_sub_self hi, List.getElem?_eq_getElem]

theorem zero_lt_depth_of_mem_windows {r : Ring (Sample α)} {w : Window α} (hw : w ∈ b.windows c r.toList) :
    0 < w.depth :=
  Nat.lt_of_lt_of_le c.zero_lt_measurementSpan (below?_of_mem_windows hw).1

theorem windows_eq_nil {r : Ring (Sample α)} (h : r.size ≤ 1) : b.windows c r.toList = [] := by
  refine List.eq_nil_iff_forall_not_mem.mpr fun w hw => ?_
  have hpos := zero_lt_depth_of_mem_windows hw
  have hlt := Ring.lt_size_of_below? (below?_of_mem_windows hw).2.1
  omega

theorem learntFrom_eq_nil {r : Ring (Sample α)} (h : r.size ≤ 1) : b.learntFrom c anchor r.toList = [] := by
  rw [learntFrom, windows_eq_nil h]
  rfl

theorem mem_used_pass {history : List (Sample α)} {depth : Nat} :
    depth ∈ (b.pass c anchor history).used ↔ ∃ w ∈ b.windows c history, w.depth = depth ∧ w.Usable anchor ∧
      ∀ w' ∈ b.windows c history, w'.depth < w.depth → w'.Usable anchor → w'.clean = true := by
  rw [pass_eq]
  exact mem_used_collect ((pairwise_windows history).imp And.left)

theorem used_pass {history : List (Sample α)} {depth : Nat} (h : depth ∈ (b.pass c anchor history).used) :
    ∃ w ∈ b.windows c history, w.depth = depth ∧ w.st.processed = false ∧ w.ended anchor = true := by
  obtain ⟨w, hw, hd, husable, -⟩ := mem_used_pass.mp h
  exact ⟨w, hw, hd, husable⟩

/-- A clean window that a pass can use is used, since all newer ones are clean, too. -/
theorem mem_used_pass_of_clean {r : Ring (Sample α)} {w : Window α} (hw : w ∈ b.windows c r.toList)
    (husable : w.Usable anchor) (hclean : w.clean = true) : w.depth ∈ (b.pass c anchor r.toList).used := by
  refine mem_used_pass.mpr ⟨w, hw, rfl, husable, fun w' hw' hlt _ => ?_⟩
  have hunder := (below?_of_mem_windows hw).2.2.2.mp hclean
  exact (below?_of_mem_windows hw').2.2.2.mpr fun d hd => hunder d (Nat.le_trans hd (Nat.le_of_lt hlt))

theorem minCLambda_learnThroughput (b : Beliefs α) (c : Config α) (anchor : Nat) (r : Ring (Sample α)) :
    (b.learnThroughput c anchor r).1.minCLambda =
      if r.size ≤ 1 then b.minCLambda
      else Scalar.max b.minCLambda
        (((b.learntFrom c anchor r.toList).map Window.rate).foldl Scalar.max c.initMinC) := by
  unfold learnThroughput
  split
  · rfl
  · rw [learntFrom, ← best_collect ((pairwise_windows _).imp And.right), ← pass_eq]

/-- A pass leaves the samples as they are but marks those where a window starts that it used. -/
theorem below?_learnThroughput (r : Ring (Sample α)) (depth : Nat) :
    (b.learnThroughput c anchor r).2.below? depth =
      (r.below? depth).map fun s =>
        if depth ∈ (b.pass c anchor r.toList).used then s.markProcessed else s := by
  unfold learnThroughput
  split
  · rename_i hsize
    simp [pass_eq, windows_eq_nil hsize, collect]
  · refine below?_foldl_mark (fun d hd => ?_) depth
    obtain ⟨w, hw, rfl, -⟩ := used_pass hd
    exact Ring.lt_size_of_below? (below?_of_mem_windows hw).2.1

end Beliefs

end Pacing
