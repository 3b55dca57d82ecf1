import ExprCheck.Log.Service
import Mathlib.Data.List.Basic

/-!
What memories hold behind a service. By its level an event reaches all of them or none, and each
keeps the last ones since it was cleared, as many as it has room for and in their order.
-/

namespace ExprCheck

namespace Window

variable {α : Type} {capacity : Nat} {w : Window α} {given : List α}

/-- A window has the last of the things that it was given, and knows how many those are. -/
structure Holds (capacity : Nat) (w : Window α) (given : List α) : Prop where
  toList_eq : w.toList = given.drop (given.length - capacity)
  size_eq : w.size = w.toList.length

theorem holds_empty (capacity : Nat) : ({} : Window α).Holds capacity [] where
  toList_eq := List.drop_nil.symm
  size_eq := rfl

theorem Holds.size_eq_min (h : w.Holds capacity given) : w.size = min capacity given.length := by
  rw [h.size_eq, h.toList_eq, List.length_drop]
  omega

theorem toList_dropOldest (w : Window α) : w.dropOldest.toList = w.toList.tail := by
  unfold dropOldest
  cases ho : w.older with
  | nil => simp [toList, ho]
  | cons a older => simp [toList, ho]

theorem size_dropOldest (w : Window α) : w.dropOldest.size = w.size - 1 := by
  unfold dropOldest
  cases w.older <;> rfl

theorem push_of_room (h : w.size < capacity) (a : α) :
    (w.push capacity a).toList = w.toList ++ [a] ∧ (w.push capacity a).size = w.size + 1 := by
  simp [push, h, toList]

theorem push_of_full (h : ¬ w.size < capacity) (a : α) :
    (w.push capacity a).toList = w.toList.tail ++ [a] ∧
      (w.push capacity a).size = w.size - 1 + 1 := by
  rw [← toList_dropOldest, ← size_dropOldest]
  simp [push, h, toList]

theorem Holds.push (h : w.Holds capacity given) (hc : 0 < capacity) (a : α) :
    (w.push capacity a).Holds capacity (given ++ [a]) := by
  have hsize := h.size_eq_min
  have hlength : (given ++ [a]).length = given.length + 1 := List.length_append
  by_cases hroom : w.size < capacity
  · obtain ⟨hpushed, hcount⟩ := push_of_room hroom a
    have hkept : w.toList = given := by
      rw [h.toList_eq, Nat.sub_eq_zero_of_le (by omega), List.drop_zero]
    constructor
    · rw [hpushed, hkept, hlength, Nat.sub_eq_zero_of_le (by omega), List.drop_zero]
    · rw [hpushed, hcount, h.size_eq, List.length_append, List.length_singleton]
  · obtain ⟨hpushed, hcount⟩ := push_of_full hroom a
    have hdrop : given.length + 1 - capacity = given.length - capacity + 1 := by omega
    constructor
    · rw [hpushed, h.toList_eq, List.tail_drop, hlength, hdrop,
        List.drop_append_of_le_length (by omega)]
    · rw [hpushed, hcount, h.size_eq, List.length_append, List.length_tail, List.length_singleton]

end Window

/-- What is done to memories behind a service. -/
inductive MemoryStep where
  | log (e : Event)
  | clear (slot : Nat)
deriving DecidableEq

/-- The events logged that no clearing of a slot follows. -/
def loggedSince (slot : Nat) : List MemoryStep → List Event
  | [] => []
  | .clear _ :: steps => loggedSince slot steps
  | .log e :: steps =>
    if .clear slot ∈ steps then loggedSince slot steps else e :: loggedSince slot steps

theorem loggedSince_append (slot : Nat) (before after : List MemoryStep) :
    loggedSince slot (before ++ after) =
      if .clear slot ∈ after then loggedSince slot after
      else loggedSince slot before ++ loggedSince slot after := by
  induction before with
  | nil => simp [loggedSince]
  | cons step before ih =>
      cases step with
      | clear k =>
          simp only [List.cons_append, loggedSince]
          exact ih
      | log e =>
          simp only [List.cons_append, loggedSince, List.mem_append, ih]
          by_cases hafter : .clear slot ∈ after
          · simp [hafter]
          · by_cases hbefore : .clear slot ∈ before <;> simp [hafter, hbefore]

theorem loggedSince_map_log (slot : Nat) (es : List Event) :
    loggedSince slot (es.map .log) = es := by
  induction es with
  | nil => rfl
  | cons e es ih => simp [loggedSince, ih]

section Modify

variable {α : Type} (f : α → α)

theorem getElem?_modify_range (n : Nat) (as : List α) (i : Nat) :
    ((List.range n).foldl (fun as i => as.modify i f) as)[i]? =
      as[i]?.map fun a => if i < n then f a else a := by
  induction n with
  | zero => simp
  | succ n ih =>
      rw [List.range_succ, List.foldl_append, List.foldl_cons, List.foldl_nil,
        List.getElem?_modify, ih]
      cases as[i]? with
      | none => rfl
      | some a =>
          by_cases hi : n = i
          · simp [hi]
          · have hlt : i < n + 1 ↔ i < n := by omega
            simp [hi, hlt]

theorem modify_range_eq_map (as : List α) :
    (List.range as.length).foldl (fun as i => as.modify i f) as = as.map f := by
  refine List.ext_getElem? fun i => ?_
  rw [getElem?_modify_range, List.getElem?_map]
  by_cases hi : i < as.length
  · simp [hi]
  · simp [List.getElem?_eq_none (Nat.le_of_not_lt hi)]

end Modify

namespace Service

/-- A service over a fan-out to so many memories. -/
def overMemories (level multi : Level) (count : Nat) : Service where
  outlet := .many multi ((List.range count).map .memory)
  level := level

def stepMemories (s : Service) (memories : List Memory) : MemoryStep → List Memory
  | .log e => s.remember e memories
  | .clear slot => memories.modify slot fun _ => {}

/-- The events for a memory that both levels let through. -/
def wanted (level multi : Level) (slot : Nat) (steps : List MemoryStep) : List Event :=
  (loggedSince slot steps).filter fun e => e.level ≤ level ∧ e.level ≤ multi

variable {level multi : Level} {count : Nat} {memories : List Memory} {steps : List MemoryStep}

theorem remember_overMemories (h : memories.length = count) (e : Event) :
    (overMemories level multi count).remember e memories =
      if e.level ≤ level ∧ e.level ≤ multi then memories.map (·.store e) else memories := by
  have hreceivers : (overMemories level multi count).receivers e =
      if e.level ≤ level ∧ e.level ≤ multi then (List.range count).map .memory else [] := by
    by_cases hl : e.level ≤ level <;> by_cases hm : e.level ≤ multi <;>
      simp [receivers, overMemories, wants, hl, hm]
  rw [remember, hreceivers]
  split
  · rw [List.foldl_map, ← modify_range_eq_map, h]
  · rfl

theorem wanted_append (slot : Nat) (before after : List MemoryStep) :
    wanted level multi slot (before ++ after) =
      if .clear slot ∈ after then wanted level multi slot after
      else wanted level multi slot before ++ wanted level multi slot after := by
  rw [wanted, loggedSince_append]
  split
  · rfl
  · rw [List.filter_append, wanted, wanted]

theorem wanted_log (slot : Nat) (e : Event) :
    wanted level multi slot [.log e] = if e.level ≤ level ∧ e.level ≤ multi then [e] else [] := by
  simp [wanted, loggedSince, List.filter_cons]

/-- Every memory holds the last events that were wanted for it. -/
structure Remembers (level multi : Level) (count : Nat) (steps : List MemoryStep)
    (memories : List Memory) : Prop where
  length_eq : memories.length = count
  holds : ∀ (slot : Nat) (m : Memory), memories[slot]? = some m →
    m.Holds Limits.memory (wanted level multi slot steps)

theorem remembers_nothing (level multi : Level) (count : Nat) :
    Remembers level multi count [] (List.replicate count {}) where
  length_eq := List.length_replicate
  holds slot m hm := by
    obtain rfl := List.eq_of_mem_replicate (List.mem_of_getElem? hm)
    exact Window.holds_empty Limits.memory

theorem Remembers.log (h : Remembers level multi count steps memories) (e : Event) :
    Remembers level multi count (steps ++ [.log e])
      ((overMemories level multi count).remember e memories) := by
  have hwanted (slot : Nat) : wanted level multi slot (steps ++ [.log e]) =
      wanted level multi slot steps ++ wanted level multi slot [.log e] := by
    rw [wanted_append, if_neg (by simp)]
  rw [remember_overMemories h.length_eq]
  by_cases he : e.level ≤ level ∧ e.level ≤ multi
  · rw [if_pos he]
    refine ⟨by rw [List.length_map, h.length_eq], fun slot m hm => ?_⟩
    rw [List.getElem?_map, Option.map_eq_some_iff] at hm
    obtain ⟨kept, hkept, rfl⟩ := hm
    rw [hwanted, wanted_log, if_pos he]
    exact (h.holds slot kept hkept).push (by decide) e
  · rw [if_neg he]
    refine ⟨h.length_eq, fun slot m hm => ?_⟩
    rw [hwanted, wanted_log, if_neg he, List.append_nil]
    exact h.holds slot m hm

theorem Remembers.clear (h : Remembers level multi count steps memories) (k : Nat) :
    Remembers level multi count (steps ++ [.clear k]) (memories.modify k fun _ => {}) := by
  refine ⟨by rw [List.length_modify, h.length_eq], fun slot m hm => ?_⟩
  have hnothing : wanted level multi slot [.clear k] = [] := rfl
  rw [wanted_append, hnothing, List.append_nil]
  rw [List.getElem?_modify] at hm
  obtain ⟨kept, hkept, rfl⟩ := Option.map_eq_some_iff.mp hm
  by_cases hk : k = slot
  · simpa [hk] using Window.holds_empty Limits.memory
  · simpa [hk, Ne.symm hk] using h.holds slot kept hkept

theorem Remembers.step (h : Remembers level multi count steps memories) (step : MemoryStep) :
    Remembers level multi count (steps ++ [step])
      ((overMemories level multi count).stepMemories memories step) := by
  cases step with
  | log e => exact h.log e
  | clear k => exact h.clear k

theorem Remembers.run (h : Remembers level multi count steps memories) (more : List MemoryStep) :
    Remembers level multi count (steps ++ more)
      (more.foldl (overMemories level multi count).stepMemories memories) := by
  induction more generalizing steps memories with
  | nil => simpa using h
  | cons step more ih => simpa using ih (h.step step)

/-- No event that both levels let through has been cleared from one memory only. -/
def ClearedAlike (level multi : Level) (i j : Nat) (steps : List MemoryStep) : Prop :=
  ∀ before e after, steps = before ++ .log e :: after → e.level ≤ level ∧ e.level ≤ multi →
    (.clear i ∈ after ↔ .clear j ∈ after)

theorem ClearedAlike.wanted_eq {i j : Nat} (h : ClearedAlike level multi i j steps) :
    wanted level multi i steps = wanted level multi j steps := by
  induction steps with
  | nil => rfl
  | cons step steps ih =>
      have hrest : wanted level multi i steps = wanted level multi j steps :=
        ih fun before e after hsplit => h (step :: before) e after (by rw [hsplit]; rfl)
      cases step with
      | clear k => exact hrest
      | log e =>
          rw [← List.singleton_append, wanted_append, wanted_append, wanted_log, wanted_log, hrest]
          by_cases he : e.level ≤ level ∧ e.level ≤ multi
          · simp only [h [] e steps rfl he]
          · simp [he]

/-- After any history of events and of clearings, each memory holds the last 10000 of the events
since it was cleared that both levels let through; what it is asked about is answered from these,
and memories that have not been cleared differently hold the same. -/
theorem memories_hold_last_events (level multi : Level) (count : Nat) (steps : List MemoryStep) :
    let memories :=
      steps.foldl (overMemories level multi count).stepMemories (List.replicate count {})
    let through := fun slot =>
      (loggedSince slot steps).filter fun e => e.level ≤ level ∧ e.level ≤ multi
    let window := fun slot => (through slot).drop ((through slot).length - 10000)
    memories.length = count ∧
    (∀ (slot : Nat) (m : Memory), memories[slot]? = some m →
      m.toList = window slot ∧ m.size = min 10000 (through slot).length ∧ m.size ≤ 10000 ∧
      ∀ code,
        (m.hasError code = true ↔ ∃ e ∈ window slot, e.level = .error ∧ e.code = code) ∧
        (m.hasSuccess code = true ↔ ∃ e ∈ window slot, e.level = .info ∧ e.code = code) ∧
        m.withCode code = (window slot).filter (·.code == code)) ∧
    ∀ i j, ClearedAlike level multi i j steps → ∀ m n : Memory,
      memories[i]? = some m → memories[j]? = some n → m.toList = n.toList := by
  intro memories through window
  have hall : Remembers level multi count steps memories :=
    (remembers_nothing level multi count).run steps
  refine ⟨hall.length_eq, ?each, ?alike⟩
  case each =>
    intro slot m hm
    have hholds := hall.holds slot m hm
    have hlist : m.toList = window slot := hholds.toList_eq
    refine ⟨hlist, hholds.size_eq_min, ?_, fun code => ⟨?_, ?_, ?_⟩⟩
    · rw [hholds.size_eq_min]
      exact Nat.min_le_left ..
    · simp [Memory.hasError, hlist, Event.isError]
    · simp [Memory.hasSuccess, hlist, Event.isInfo]
    · rw [Memory.withCode, hlist]
  case alike =>
    intro i j hij m n hm hn
    rw [(hall.holds i m hm).toList_eq, (hall.holds j n hn).toList_eq, hij.wanted_eq]

/-- A memory that is cleared after as many warnings as there is room for, beside two that are
not. Of the two events that follow, only the second is let through by both levels. -/
theorem memories_hold_last_events_beyond_room :
    let warning := Event.warning "long"
    let error := Event.error "E043" "trailing"
    let steps := (List.replicate Limits.memory warning).map .log ++
      [.clear 0, .log (Event.info "done"), .log error]
    let memories := steps.foldl (overMemories .info .warning 3).stepMemories (List.replicate 3 {})
    ∃ m n o, (memories[0]? = some m ∧ memories[1]? = some n ∧ memories[2]? = some o ∧
        ClearedAlike .info .warning 1 2 steps) ∧
      m.toList = [error] ∧ n.toList = List.replicate (Limits.memory - 1) warning ++ [error] ∧
      n.toList = o.toList := by
  intro warning error steps memories
  have hcleared (slot : Nat) : .clear slot ∈ steps ↔ slot = 0 := by simp [steps]
  have hsame : ClearedAlike .info .warning 1 2 steps := by
    intro before e after hsplit _
    have hnot (slot : Nat) (h : slot ≠ 0) : .clear slot ∉ after := fun hmem =>
      h ((hcleared slot).mp (by simp [hsplit, hmem]))
    exact iff_of_false (hnot 1 (by decide)) (hnot 2 (by decide))
  have hwanted (slot : Nat) : wanted .info .warning slot steps =
      if slot = 0 then [error] else List.replicate Limits.memory warning ++ [error] := by
    have hmany : wanted .info .warning slot ((List.replicate Limits.memory warning).map .log) =
        List.replicate Limits.memory warning := by
      rw [wanted, loggedSince_map_log]
      exact List.filter_replicate_of_pos rfl
    have hlater : wanted .info .warning slot
        [.clear 0, .log (Event.info "done"), .log error] = [error] := by
      by_cases h : slot = 0 <;> rfl
    rw [wanted_append, hmany, hlater]
    by_cases h : slot = 0 <;> simp [h]
  have hall := memories_hold_last_events .info .warning 3 steps
  have hlength : memories.length = 3 := hall.1
  have hheld (slot : Nat) (m : Memory) (hm : memories[slot]? = some m) : m.toList =
      (wanted .info .warning slot steps).drop
        ((wanted .info .warning slot steps).length - 10000) :=
    (hall.2.1 slot m hm).1
  have halike (i j : Nat) (hij : ClearedAlike .info .warning i j steps) (m n : Memory)
      (hm : memories[i]? = some m) (hn : memories[j]? = some n) : m.toList = n.toList :=
    hall.2.2 i j hij m n hm hn
  -- From here on the memories are known by these facts only.
  clear_value memories
  obtain ⟨m, n, o, rfl⟩ := List.length_eq_three.mp hlength
  refine ⟨m, n, o, ⟨rfl, rfl, rfl, hsame⟩, ?_, ?_, halike 1 2 hsame n o rfl rfl⟩
  · rw [hheld 0 m rfl, hwanted, if_pos rfl, List.length_singleton,
      Nat.sub_eq_zero_of_le (by decide), List.drop_zero]
  · have hone : Limits.memory + [error].length - 10000 = 1 := Nat.add_sub_cancel_left ..
    rw [hheld 1 n rfl, hwanted, if_neg (by decide), List.length_append, List.length_replicate, hone,
      List.drop_append_of_le_length (by rw [List.length_replicate]; decide), List.drop_replicate]

end Service
end ExprCheck
