import Mathlib.Order.Basic

/-! Scripts over a store: an error ends the script, and what was written before
it stays. -/
namespace YzFramework.Library

def Script (Store Reply : Type) := Store → Except String Reply × Store

namespace Script

variable {Store Reply Next : Type} {store after : Store}

instance : Monad (Script Store) where
  pure reply store := (.ok reply,store)
  bind script next store :=
    match script store with
    | (.ok reply,store) => next reply store
    | (.error fault,store) => (.error fault,store)

instance : MonadLift (Except String) (Script Store) where
  monadLift answer store := (answer,store)

instance : LawfulMonad (Script Store) :=
  LawfulMonad.mk' (Script Store)
    (fun script => by
      funext store
      change (match script store with
        | (.ok reply,store) => (.ok reply,store)
        | (.error fault,store) => (.error fault,store)) = script store
      rcases script store with ⟨_ | _,_⟩ <;> rfl)
    (fun _ _ => rfl)
    (fun script next last => by
      funext store
      change (match (match script store with
          | (.ok reply,store) => next reply store
          | (.error fault,store) => (.error fault,store)) with
        | (.ok reply,store) => last reply store
        | (.error fault,store) => (.error fault,store)) = match script store with
          | (.ok reply,store) => (next reply >>= last) store
          | (.error fault,store) => (.error fault,store)
      rcases script store with ⟨_ | _,_⟩ <;> rfl)

theorem bind_ok {script : Script Store Reply} {reply : Reply} (next : Reply → Script Store Next)
    (ran : script store = (.ok reply,after)) : (script >>= next) store = next reply after := by
  change (match script store with
    | (.ok reply,store) => next reply store
    | (.error fault,store) => (.error fault,store)) = _
  rw [ran]

theorem bind_error {script : Script Store Reply} {fault : String} (next : Reply → Script Store Next)
    (ran : script store = (.error fault,after)) : (script >>= next) store = (.error fault,after) := by
  change (match script store with
    | (.ok reply,store) => next reply store
    | (.error fault,store) => (.error fault,store)) = _
  rw [ran]

def orNull (script : Script Store (Option Reply)) : Script Store (Option Reply) := fun store =>
  match script store with
  | (.ok reply,store) => (.ok reply,store)
  | (.error _,store) => (.ok none,store)

theorem orNull_ok {script : Script Store (Option Reply)} {reply : Option Reply}
    (ran : script store = (.ok reply,after)) : orNull script store = (.ok reply,after) := by
  rw [orNull,ran]

theorem bind_lift_ok {reply : Reply} (next : Reply → Script Store Next) :
    ((liftM (.ok reply : Except String Reply) : Script Store Reply) >>= next) store =
      next reply store := rfl

theorem bind_lift_error (fault : String) (next : Reply → Script Store Next) :
    ((liftM (.error fault : Except String Reply) : Script Store Reply) >>= next) store =
      (.error fault,store) := rfl

theorem bind_map {script : Script Store Reply} {answer : Except String Reply} (f : Reply → Next)
    (ran : script store = (answer,after)) :
    (script >>= fun reply => pure (f reply)) store = (answer.map f,after) := by
  cases answer with
  | ok reply => exact bind_ok _ ran
  | error fault => exact bind_error _ ran

theorem map_some_eq {answer : Except String Reply} {reply : Reply} :
    answer.map some = .ok (some reply) ↔ answer = .ok reply := by
  cases answer with
  | ok given => simp [Except.map]
  | error fault => simp [Except.map]

end Script
end YzFramework.Library
