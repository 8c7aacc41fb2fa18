import Pensar.Computation.SessionVariables
import Pensar.Model.CSOperations

/-!
# Sessions with the database (`contact/data/db_connection.hpp`)

The statements that a `ScopedSession` sends are texts.  The driver hands a text to the server
as a `const char*`.

A session takes a position of the pool that is free, and sets the variables of the connection
there; its destructor resets them and gives the position back.  A statement that the server
rejects, or that fails by itself, throws.
-/

set_option autoImplicit false

namespace Pensar.Model

open Pensar.Computation

/-- What the server receives of a statement. -/
def sentText (statement : S) : S := upToNul statement

namespace ScopedSession

/-- SOURCE: contact/data/db_connection.hpp:80-91 -/
def quoteLiteral (s : S) : S :=
  let result := s.foldl
    (fun result c => if c = Wc '\'' then result ++ W "''" else result ++ [c]) (W "'")
  result ++ W "'"

/-- SOURCE: contact/data/db_connection.hpp:51-52 -/
def setCurrentUser (username : S) : S := W "SET \"app.current_user\" = " ++ quoteLiteral username

/-- SOURCE: contact/data/db_connection.hpp:57-58 -/
def setLocale (locale : S) : S := W "SET \"app.locale\" = " ++ quoteLiteral locale

/-- The statements of the constructor.
SOURCE: contact/data/db_connection.hpp:48-59 -/
def openingStatements (username locale : S) : List S :=
  (if username.isEmpty then [] else [setCurrentUser username]) ++
    (if locale.isEmpty then [] else [setLocale locale])

end ScopedSession

/-! ## The connections of the pool -/

/-- `app.current_user` and `app.locale`. -/
inductive SessionVariable where
  | currentUser
  | locale
  deriving DecidableEq, Repr

abbrev Connection := SessionVariables.Connection SessionVariable S

/-- Which of the two statements of a constructor or destructor fails by itself. -/
inductive Fault where
  | first
  | second
  deriving DecidableEq, Repr

/-- A position of the pool: its connection, whether it is leased, and the user name and locale
of the session that holds it. -/
structure Slot where
  connection : Connection
  leased : Bool
  session : Option (S × S)

namespace ScopedSession

/-- The body of the constructor on its connection; the answer says whether it returns.
SOURCE: contact/data/db_connection.hpp:48-59 -/
def opened (c : Connection) (username locale : S) (fault : Option Fault) : Connection × Bool :=
  let (c, ok) :=
    if username.isEmpty then (c, true)
    else SessionVariables.execute c (.set .currentUser username) (fault = some .first)
  if ok then
    if locale.isEmpty then (c, true)
    else SessionVariables.execute c (.set .locale locale) (fault = some .second)
  else
    (c, false)

/-- The statements of the destructor; what they throw is caught.
SOURCE: contact/data/db_connection.hpp:62-67 -/
def closed (c : Connection) (fault : Option Fault) : Connection :=
  let (c, ok) := SessionVariables.execute c (.reset .currentUser) (fault = some .first)
  if ok then
    (SessionVariables.execute c (.reset .locale) (fault = some .second)).1
  else
    c

/-- The constructor on a position that `lease` gives.  When its body throws, the object has
not been constructed and its destructor does not run.
SOURCE: contact/data/db_connection.hpp:41-60 -/
def constructAt (slot : Slot) (username locale : S) (fault : Option Fault) : Slot :=
  let (c, ok) := opened slot.connection username locale fault
  { connection := c, leased := true, session := if ok then some (username, locale) else none }

/-- SOURCE: contact/data/db_connection.hpp:62-69 -/
def destructAt (slot : Slot) (fault : Option Fault) : Slot :=
  { connection := closed slot.connection fault, leased := false, session := none }

end ScopedSession

end Pensar.Model
