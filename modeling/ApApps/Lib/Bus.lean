import Mathlib.Logic.Function.Basic
import Mathlib.Data.List.Basic

/- A bus for messages on topics.

   A member joins the bus with the topics it listens to and a will, and with a message that
   is said on its behalf; it says messages, and it leaves. What is said goes to everyone who
   is on the bus once the call is over and listens to the topic: the one that joins hears
   its own message, the one that leaves does not hear its own will. Whoever is not on the
   bus can say nothing there, and whoever is on it cannot join a second time.

   `heard` is what one party gets out of a sequence of calls, `after` who is on the bus at
   the end of it. -/
namespace Bus

/-- The topics a member listens to, and what is said once it has left. -/
structure Member (Topic Payload : Type) where
  topics : List Topic
  will : Option (Topic × Payload)
  deriving DecidableEq

inductive Call (Id Topic Payload : Type) where
  /-- `hello` is said for the new member -/
  | join (i : Id) (member : Member Topic Payload) (hello : Option (Topic × Payload))
  | say (i : Id) (message : Topic × Payload)
  | leave (i : Id)

/-- Who is on the bus. -/
abbrev Roll (Id Topic Payload : Type) := Id → Option (Member Topic Payload)

variable {Id Topic Payload : Type} {r : Roll Id Topic Payload} {i : Id}

/-- Nobody is on the bus. -/
def Roll.empty : Roll Id Topic Payload := fun _ => none

/-! ## One call -/

/-- The message that the call puts on the bus. -/
def said (r : Roll Id Topic Payload) : Call Id Topic Payload → Option (Topic × Payload)
  | .join i _ hello => if (r i).isSome then none else hello
  | .say i message => if (r i).isSome then some message else none
  | .leave i => (r i).bind Member.will

theorem said_join_of_member {member : Member Topic Payload} {hello : Option (Topic × Payload)}
    (h : (r i).isSome = true) : said r (.join i member hello) = none := if_pos h

theorem said_join_of_stranger {member : Member Topic Payload} {hello : Option (Topic × Payload)}
    (h : r i = none) : said r (.join i member hello) = hello := if_neg (by simp [h])

theorem said_say_of_member {message : Topic × Payload} (h : (r i).isSome = true) :
    said r (.say i message) = some message := if_pos h

theorem said_say_of_stranger {message : Topic × Payload} (h : r i = none) :
    said r (.say i message) = none := if_neg (by simp [h])

section Next
variable [DecidableEq Id]

/-- Who is on the bus after the call. -/
def next (r : Roll Id Topic Payload) : Call Id Topic Payload → Roll Id Topic Payload
  | .join i member _ => if (r i).isSome then r else Function.update r i (some member)
  | .say _ _ => r
  | .leave i => Function.update r i none

theorem next_join_of_member {member : Member Topic Payload} {hello : Option (Topic × Payload)}
    (h : (r i).isSome = true) : next r (.join i member hello) = r := if_pos h

theorem next_join_of_stranger {member : Member Topic Payload} {hello : Option (Topic × Payload)}
    (h : r i = none) : next r (.join i member hello) = Function.update r i (some member) :=
  if_neg (by simp [h])

/-- Who is on the bus after the calls. -/
def after (r : Roll Id Topic Payload) : List (Call Id Topic Payload) → Roll Id Topic Payload
  | [] => r
  | call :: calls => after (next r call) calls

theorem after_append (calls calls' : List (Call Id Topic Payload)) :
    after r (calls ++ calls') = after (after r calls) calls' := by
  induction calls generalizing r with
  | nil => rfl
  | cons call calls ih => exact ih

end Next

/-! ## What is heard -/

section Heard
variable [DecidableEq Id] [DecidableEq Topic]

def listens (r : Roll Id Topic Payload) (i : Id) (topic : Topic) : Bool :=
  ((r i).map fun member => decide (topic ∈ member.topics)).getD false

/-- What `i` hears of one call. -/
def hears (i : Id) (r : Roll Id Topic Payload) (call : Call Id Topic Payload) : List (Topic × Payload) :=
  ((said r call).filter fun message => listens (next r call) i message.1).toList

/-- What `i` hears of the calls, in order. -/
def heard (i : Id) (r : Roll Id Topic Payload) : List (Call Id Topic Payload) → List (Topic × Payload)
  | [] => []
  | call :: calls => hears i r call ++ heard i (next r call) calls

/-- A call that puts nothing on the bus is not heard. -/
theorem hears_of_said_none {call : Call Id Topic Payload} (h : said r call = none) : hears i r call = [] := by
  rw [hears, h]
  rfl

/-- What is said reaches those who listen to its topic. -/
theorem hears_of_said {call : Call Id Topic Payload} {message : Topic × Payload}
    (h : said r call = some message) :
    hears i r call = if listens (next r call) i message.1 = true then [message] else [] := by
  rw [hears, h, Option.filter_some]
  cases listens (next r call) i message.1 <;> rfl

theorem heard_append (calls calls' : List (Call Id Topic Payload)) :
    heard i r (calls ++ calls') = heard i r calls ++ heard i (after r calls) calls' := by
  induction calls generalizing r with
  | nil => rfl
  | cons call calls ih =>
    calc heard i r (call :: calls ++ calls')
        = hears i r call ++ heard i (next r call) (calls ++ calls') := rfl
      _ = hears i r call ++ (heard i (next r call) calls ++ heard i (after (next r call) calls) calls') := by
          rw [ih]
      _ = heard i r (call :: calls) ++ heard i (after r (call :: calls)) calls' :=
          (List.append_assoc _ _ _).symm

end Heard

end Bus
