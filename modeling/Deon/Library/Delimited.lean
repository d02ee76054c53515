import Mathlib.Data.List.Basic

/-! Texts that tell where they end, over arbitrary letters and items. A reader takes an item from
the front of a text and returns it with the rest; what was written one behind the other is read
back one by one. -/
namespace Deon.Library

abbrev Reader (β α : Type*) := List β → Option (α × List β)

/-- The reader takes this text for this item, whatever follows. -/
def Takes {α β : Type*} (read : Reader β α) (text : List β) (item : α) : Prop :=
  ∀ rest, read (text ++ rest) = some (item,rest)

variable {κ μ α β : Type*}

/-- One item for each of the contexts. -/
def readEach (read : κ → Reader β α) : List κ → Reader β (List α)
  | [] => fun text => some ([],text)
  | context :: contexts => fun text => do
    let (item,rest) ← read context text
    let (items,rest) ← readEach read contexts rest
    return (item :: items,rest)

/-- Items up to the text that ends them, for which the reader of items has none. -/
def readUntil (read : Reader β (Option α)) : Nat → Reader β (List α)
  | 0 => fun _ => none
  | fuel + 1 => fun text => do
    let (item,rest) ← read text
    match item with
    | none => return ([],rest)
    | some item =>
      let (items,rest) ← readUntil read fuel rest
      return (item :: items,rest)

/-- A stream has one reading: neither text is cut short by the other. -/
theorem Takes.unique {read : Reader β α} {text text' rest rest' : List β} {item item' : α}
    (one : Takes read text item) (other : Takes read text' item')
    (same : text ++ rest = text' ++ rest') : text = text' ∧ item = item' ∧ rest = rest' := by
  have both : some (item,rest) = some (item',rest') := by rw [← one rest,same,other rest']
  obtain ⟨rfl,rfl⟩ := Prod.mk.inj (Option.some.inj both)
  exact ⟨List.append_cancel_right same,rfl,rfl⟩

theorem Takes.each {read : κ → Reader β α} {context : μ → κ} {text : μ → List β} {item : μ → α}
    {messages : List μ}
    (each : ∀ message ∈ messages, Takes (read (context message)) (text message) (item message)) :
    Takes (readEach read (messages.map context)) (messages.flatMap text) (messages.map item) := by
  induction messages with
  | nil => exact fun _ => rfl
  | cons message messages ih =>
    intro rest
    obtain ⟨first,others⟩ := List.forall_mem_cons.mp each
    have later := ih others rest
    simp only [List.map_cons,List.flatMap_cons,List.append_assoc,readEach,
      first (messages.flatMap text ++ rest),later,bind,Option.bind]
    rfl

theorem Takes.until {read : Reader β (Option α)} {text : μ → List β} {item : μ → α}
    {messages : List μ} {stop : List β}
    (each : ∀ message ∈ messages, Takes read (text message) (some (item message)))
    (stops : Takes read stop none) : ∀ {fuel : Nat}, messages.length < fuel →
      Takes (readUntil read fuel) (messages.flatMap text ++ stop) (messages.map item) := by
  induction messages with
  | nil =>
    intro fuel enough rest
    obtain ⟨fuel,rfl⟩ := Nat.exists_eq_succ_of_ne_zero (Nat.ne_zero_of_lt enough)
    simp only [List.flatMap_nil,List.nil_append,readUntil,stops rest,bind,Option.bind]
    rfl
  | cons message messages ih =>
    intro fuel enough rest
    obtain ⟨fuel,rfl⟩ := Nat.exists_eq_succ_of_ne_zero (Nat.ne_zero_of_lt enough)
    obtain ⟨first,others⟩ := List.forall_mem_cons.mp each
    have later := ih others (Nat.lt_of_succ_lt_succ enough) rest
    simp only [List.map_cons,List.flatMap_cons,List.append_assoc,readUntil,
      first (messages.flatMap text ++ (stop ++ rest)),bind,Option.bind]
    rw [← List.append_assoc,later]
    rfl

end Deon.Library
