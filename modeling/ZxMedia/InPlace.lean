import ZxMedia.Error

/-!
# Changes in place

An operation can change a state in place, one part after another, or give the state
anew. In place, what was changed before a failure stays changed. The caller of an
operation that gives the state anew keeps the state that it had when the operation
fails; `settle` puts it beside the answer, so that both kinds of operations can be
compared by `change`.
-/

namespace ZxMedia

/-- A change of a state in place. What was changed before a failure stays changed. -/
abbrev InPlace (σ α : Type) := ExceptT Error (StateM σ) α

namespace InPlace

variable {σ α β : Type}

/-- The answer of a change in place, and the state that it leaves. -/
def change (state : σ) (action : InPlace σ α) : Except Error α × σ :=
  StateT.run (ExceptT.run action) state

/-- Answers a question about the state, or fails. -/
def ask (question : σ → Except Error α) : InPlace σ α := do
  match question (← get) with
  | .ok answer => return answer
  | .error error => throw error

/-- The answer of an operation that gives a state anew, and the state after it: the same
one if the operation has failed. -/
def settle (state : σ) : Except Error (α × σ) → Except Error α × σ
  | .ok (answer, after) => (.ok answer, after)
  | .error error => (.error error, state)

theorem change_get (state : σ) : change state get = (.ok state, state) := rfl

theorem change_modify (state : σ) (edit : σ → σ) :
    change state (modify edit) = (.ok ⟨⟩, edit state) := rfl

/-- What follows a failure is not done, and what was done before it stays. -/
theorem change_bind (state : σ) (first : InPlace σ α) (next : α → InPlace σ β) :
    change state (first >>= next) =
      match change state first with
      | (.ok value, after) => change after (next value)
      | (.error error, after) => (.error error, after) := by
  rcases answered : change state first with ⟨_ | _, after⟩
  all_goals
    simp only [change, ExceptT.run_bind, StateT.run_bind] at answered ⊢
    rw [answered]
    rfl

theorem change_ask (state : σ) (question : σ → Except Error α) :
    change state (ask question) = (question state, state) := by
  simp only [ask, change_bind, change_get]
  cases question state <;> rfl

theorem change_discard (state : σ) (action : InPlace σ α) :
    change state (discard action) =
      ((change state action).1.map fun _ => (), (change state action).2) := by
  change change state (action >>= fun _ => pure ()) = _
  rw [change_bind]
  rcases change state action with ⟨_ | _, after⟩ <;> rfl

/-- The answer of an operation does not matter to the state that it leaves. -/
theorem change_discard_settle {state : σ} {action : InPlace σ α}
    {answer : Except Error (α × σ)} (agrees : change state action = settle state answer) :
    change state (discard action) =
      settle state ((answer.map Prod.snd).map fun after => ((), after)) := by
  rw [change_discard, agrees]
  cases answer <;> rfl

theorem answer_of_settle {state : σ} {action : InPlace σ Unit} {answer : Except Error σ}
    (agrees : change state action = settle state (answer.map fun after => ((), after))) :
    (change state action).1 = answer.map fun _ => () := by
  rw [agrees]
  cases answer <;> rfl

end InPlace

end ZxMedia
