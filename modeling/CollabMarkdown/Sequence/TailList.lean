import Mathlib.Data.List.Basic

/-!
# Singly linked lists with a tail pointer

`head` is the list of nodes reached from the head pointer and `tail` the place
of the node the tail pointer names, absent for NULL.  The field `tail_eq` keeps
the tail pointer on the last node, so a list whose tail pointer went astray
cannot be built.
-/

namespace CollabMarkdown.Sequence

universe u

/-- The place of the last node of a list, absent for the empty list. -/
def lastIndex {α : Type u} : List α → Option Nat
  | [] => none
  | _ :: rest => some rest.length

@[simp]
theorem lastIndex_nil {α : Type u} : lastIndex ([] : List α) = none :=
  rfl

@[simp]
theorem lastIndex_concat {α : Type u} (nodes : List α) (node : α) :
    lastIndex (nodes ++ [node]) = some nodes.length := by
  cases nodes <;> simp [lastIndex]

theorem lastIndex_eq_none_iff {α : Type u} {nodes : List α} :
    lastIndex nodes = none ↔ nodes = [] := by
  cases nodes <;> simp [lastIndex]

theorem take_succ_of_lastIndex {α : Type u} {nodes : List α} {i : Nat}
    (last : lastIndex nodes = some i) : nodes.take (i + 1) = nodes := by
  cases nodes with
  | nil => simp at last
  | cons node rest =>
      have equal : rest.length = i := Option.some.inj last
      exact List.take_of_length_le (by simp [equal])

theorem getElem?_of_lastIndex {α : Type u} (nodes : List α) :
    (lastIndex nodes).bind (nodes[·]?) = nodes.getLast? := by
  cases nodes with
  | nil => rfl
  | cons node rest => simp [lastIndex, List.getLast?_eq_getElem?]

/-- A linked list with a head and a tail pointer. -/
structure TailList (α : Type u) where
  head : List α
  tail : Option Nat
  tail_eq : tail = lastIndex head

namespace TailList

variable {α : Type u}

@[ext]
theorem ext_head {first second : TailList α} (head_eq : first.head = second.head) :
    first = second := by
  obtain ⟨nodes, tail, tail_eq⟩ := first
  obtain ⟨nodes', tail', tail_eq'⟩ := second
  cases head_eq
  cases tail_eq
  cases tail_eq'
  rfl

/-- Both pointers NULL. -/
def empty : TailList α :=
  ⟨[], none, rfl⟩

@[simp]
theorem head_empty : (empty : TailList α).head = [] :=
  rfl

/-- Append a node whose next pointer is NULL.  With a tail, the node is linked
behind it, which cuts off whatever followed; without one it becomes the head. -/
def append (list : TailList α) (node : α) : TailList α :=
  match h : list.tail with
  | some i =>
      ⟨list.head.take (i + 1) ++ [node], some (i + 1), by
        have last := list.tail_eq.symm.trans h
        rw [take_succ_of_lastIndex last, lastIndex_concat]
        cases nodes : list.head with
        | nil => simp [nodes] at last
        | cons first rest => simpa [nodes, lastIndex] using last.symm⟩
  | none => ⟨[node], some 0, rfl⟩

@[simp]
theorem head_append (list : TailList α) (node : α) :
    (list.append node).head = list.head ++ [node] := by
  unfold append
  split
  case h_1 i h =>
    simp only [take_succ_of_lastIndex (list.tail_eq.symm.trans h)]
  case h_2 h =>
    rw [lastIndex_eq_none_iff.mp (list.tail_eq.symm.trans h), List.nil_append]

/-- The node the tail pointer names. -/
def last (list : TailList α) : Option α :=
  list.tail.bind (list.head[·]?)

theorem last_eq_getLast? (list : TailList α) : list.last = list.head.getLast? := by
  rw [last, list.tail_eq, getElem?_of_lastIndex]

theorem tail_eq_none_iff (list : TailList α) : list.tail = none ↔ list.head = [] := by
  rw [list.tail_eq, lastIndex_eq_none_iff]

end TailList

end CollabMarkdown.Sequence
