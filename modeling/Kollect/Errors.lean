import Kollect.Foundation.ErrorTree
import Kollect.Foundation.Text

/-
  Classes of errors (`internal/errors/errors.go`).

  The class of an error is that of the first class error a search meets, and only without one that
  of the first status of the API server.
-/

namespace Kollect
namespace Errors

----
-- Errors
----

inductive ErrorClass where
  | transient
  | terminal
  | forbidden
deriving DecidableEq, Repr

/- The reasons of the API server that are told apart. -/
inductive StatusReason where
  | notFound
  | invalid
  | badRequest
  | forbidden
  | other
deriving DecidableEq, Repr

/-
  A class error is made with one of the three classes only. A text is the message of an error
  without a meaning of its own, also of one that wraps another.
-/
inductive ErrorLabel where
  | text (message : Text)
  | status (reason : StatusReason) (message : Text)
  | class_ (c : ErrorClass)
  | inventoryScoped
deriving DecidableEq

abbrev GoError := ErrorTree ErrorLabel

/- `fmt.Errorf` and `errors.New`. -/
def errorf (message : Text) : GoError := .leaf (.text message)

def transient (err : GoError) : GoError := .wrap (.class_ .transient) err

def terminal (err : GoError) : GoError := .wrap (.class_ .terminal) err

def forbidden (err : GoError) : GoError := .wrap (.class_ .forbidden) err

/- The outer class wins over the one the error had. -/
def inventoryScoped (err : GoError) : GoError := terminal (.wrap .inventoryScoped err)

/- `errors.Join`; nothing is joined to no error. -/
def join (errs : List GoError) : Option GoError := if errs = [] then none else some (.join errs)

----
-- Classes
----

variable (err : GoError)

/- `errors.As` for a class error. -/
def classError? : Option ErrorClass :=
  err.findSome? fun
    | .class_ c => some c
    | _ => none

/- The first status, as `apierrors.ReasonForError` finds it. -/
def statusReason? : Option StatusReason :=
  err.findSome? fun
    | .status reason _ => some reason
    | _ => none

def reasonClass : StatusReason → ErrorClass
  | .notFound | .invalid | .badRequest => .terminal
  | .forbidden => .forbidden
  | .other => .transient

def classOf : ErrorClass :=
  match classError? err with
  | some c => c
  | none =>
    match statusReason? err with
    | some reason => reasonClass reason
    | none => .transient

def isTerminal : Bool := classOf err = .terminal

/- `errors.Is` for the marker, which its own error answers. -/
def isInventoryScoped : Bool :=
  (err.findSome? fun
    | .inventoryScoped => some ()
    | _ => none).isSome

theorem isInventoryScoped_inventoryScoped : isInventoryScoped (inventoryScoped err) = true := by
  unfold isInventoryScoped inventoryScoped terminal
  rw [ErrorTree.findSome?, ErrorTree.findSome?]
  rfl

----
-- Joined Errors
----

/- The class that the status of an error stands for. -/
def statusClass? : Option ErrorClass := (statusReason? err).map reasonClass

/-
  The classes that a search of joined errors can meet: those of class errors, and of statuses if
  there is no class error.
-/
def meetable (errs : List GoError) : List ErrorClass :=
  let classes := errs.filterMap classError?
  if classes = [] then errs.filterMap statusClass? else classes

/- The first of them is the class of the joined errors. -/
theorem classOf_join (errs : List GoError) :
    classOf (.join errs) = (meetable errs).head?.getD .transient := by
  have hClass : classError? (.join errs) = (errs.filterMap classError?).head? :=
    ErrorTree.findSome?_join _ errs
  have hReason : statusReason? (.join errs) = (errs.filterMap statusReason?).head? :=
    ErrorTree.findSome?_join _ errs
  have hStatus : errs.filterMap statusClass? = (errs.filterMap statusReason?).map reasonClass :=
    List.map_filterMap.symm
  unfold classOf meetable
  rw [hClass, hReason, hStatus]
  cases errs.filterMap classError? with
  | cons c cs => rfl
  | nil =>
    cases errs.filterMap statusReason? with
    | nil | cons => rfl

end Errors
end Kollect
