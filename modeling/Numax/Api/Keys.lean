import Numax.Host.Db
import Numax.Base.Base64
import Numax.Base.Json

/-!
# Listing keys over the management API

`GET /api/v1/keys`: the route (`nx-api/src/routes.rs`) decodes the query, the
control handle (`nx-core/src/control.rs`) reads one key more than asked for to
learn whether there are more, and the route trims the page until its JSON text is
within the body limit. Keys and cursors travel in base64; the empty key, which
has no base64 text, travels as `~`.

The base64 engine is a parameter, and the serializer hands its text to the body writer
in pieces of its own choice (`pieces`).
-/

open Base

namespace Numax

/-! ## Control handle -/

def maxControlPageSize : Nat := 100

inductive ControlError where
  | invalidCursor
  | invalidLimit
  | moduleNotFound
  | keyNotFound
  | invalidModule (error : String)
  | moduleExecutionFailed (error : String)
  | storage (error : StoreError)
  | internal (error : String)
deriving DecidableEq, Repr

structure ControlPage (α : Type) where
  items : List α
  nextCursor : Option Bytes
deriving DecidableEq, Repr

def validatePageLimit (limit : Nat) : Except ControlError Unit :=
  if 1 ≤ limit ∧ limit ≤ maxControlPageSize then .ok () else .error .invalidLimit

/-- Cursors of the runtime's own keys or from another listing are refused. -/
def cursorRefused (pfx : Bytes) (cursor : Option Bytes) : Bool :=
  cursor.any fun cursor =>
    isReserved cursor || (!pfx.isEmpty && !startsWith cursor pfx)

/-- A page of keys; a key beyond the limit shows that there are more. -/
def listKeys (fault : Option StoreError) (s : Store) (pfx : Bytes) (cursor : Option Bytes)
    (limit : Nat) : Except ControlError (ControlPage Bytes) :=
  match validatePageLimit limit with
  | .error error => .error error
  | .ok () =>
    if cursorRefused pfx cursor then .error .invalidCursor
    else
      -- `u32::try_from(limit.saturating_add(1)).unwrap_or(u32::MAX)`
      match s.keysPrefixPageAfter fault pfx cursor (UInt32.ofNat (min (limit + 1) (2 ^ 32 - 1)))
          (some (asBytes reservedPrefix)) with
      | .error error => .error (.storage error)
      | .ok items =>
        let hasMore := items.length > limit
        let items := items.take limit
        .ok { items, nextCursor := if hasMore then items.getLast? else none }

/-! ## Responses -/

structure ApiError where
  status : Nat
  code : String
  message : String
deriving DecidableEq, Repr

def invalidRequest : ApiError := ⟨400, "invalid_request", "invalid request"⟩

def internalError : ApiError := ⟨500, "internal_error", "internal server error"⟩

def controlErrorResponse : ControlError → ApiError
  | .invalidCursor => invalidRequest
  | .invalidLimit => invalidRequest
  | .moduleNotFound => ⟨404, "not_found", "module not found"⟩
  | .keyNotFound => ⟨404, "not_found", "key not found"⟩
  | .invalidModule _ => ⟨422, "module_invalid", "invalid WebAssembly module"⟩
  | .moduleExecutionFailed _ => ⟨422, "module_execution_failed", "module execution failed"⟩
  | .storage _ => internalError
  | .internal _ => internalError

structure PageResponse (α : Type) where
  items : List α
  nextCursor : Option String
deriving DecidableEq, Repr

open Json.Codec in
/-- The JSON text of a page of strings. -/
def pageCodec : Json.Codec (PageResponse String) :=
  (field '\x7b' "items" (list string string_leads_item)
    (field ',' "next_cursor" (option string string_leads_some) done
      done_leads_nondigit)
    (field_leads (by decide))).imap
      (fun p => some ⟨p.1, p.2.1⟩) (fun page => (page.items, page.nextCursor, ())) fun _ => rfl

def maxResponseBodySize : Nat := 1024 * 1024

structure LimitedJsonBody where
  bytes : Bytes := []
  exceeded : Bool := false
deriving DecidableEq, Repr

namespace LimitedJsonBody

/-- One piece of text; the flag says whether it was taken. -/
def write (body : LimitedJsonBody) (piece : Bytes) : LimitedJsonBody × Bool :=
  if piece.length > maxResponseBodySize - body.bytes.length then
    ({ body with exceeded := true }, false)
  else ({ body with bytes := body.bytes ++ piece }, true)

/-- `serde_json::to_writer`: all pieces, up to the first that is refused. -/
def toWriter (body : LimitedJsonBody) : List Bytes → LimitedJsonBody × Bool
  | [] => (body, true)
  | piece :: rest =>
    let (body, taken) := body.write piece
    if taken then body.toWriter rest else (body, false)

end LimitedJsonBody

section Bounded

variable {α : Type} (pieces : PageResponse α → List Bytes) (cursorFor : α → String)

/-- Drop items at the end until the text is within the limit. -/
def boundedPageLoop (page : PageResponse α) : Except ApiError Bytes :=
  let (body, written) := LimitedJsonBody.toWriter {} (pieces page)
  if written then .ok body.bytes
  else if !body.exceeded || decide (page.items.length ≤ 1) then .error internalError
  else
    let items := page.items.dropLast
    boundedPageLoop { items, nextCursor := items.getLast?.map cursorFor }
termination_by page.items.length
decreasing_by
  next h =>
    simp only [Bool.or_eq_true, decide_eq_true_eq, not_or] at h
    simp only [List.length_dropLast]
    omega

def boundedPage (items : List α) (nextCursor : Option String) : Except ApiError Bytes :=
  boundedPageLoop pieces cursorFor { items, nextCursor }

end Bounded

/-! ## The route -/

def defaultPageSize : Nat := 50
def maxPageSize : Nat := maxControlPageSize
def maxKeySize : Nat := 8 * 1024
def emptyKey : String := "~"

structure KeyPageQuery where
  pfx : Option String
  cursor : Option String
  limit : Option Nat
deriving DecidableEq, Repr

def pageSize (limit : Option Nat) : Option Nat :=
  let limit := limit.getD defaultPageSize
  if 1 ≤ limit ∧ limit ≤ maxPageSize then some limit else none

section Route

variable (engine : Base64.Engine)

def decodeKey (encoded : Option String) (allowAbsent : Bool) : Option Bytes :=
  match encoded with
  | none => if allowAbsent then some [] else none
  | some encoded =>
    if encoded.isEmpty then none
    else if encoded = emptyKey then some []
    else
      match engine.decode encoded with
      | none => none
      | some decoded =>
        if decoded.isEmpty || decide (decoded.length > maxKeySize) then none else some decoded

def encodeKey (key : Bytes) : String :=
  if key.isEmpty then emptyKey else engine.encode key

def boundedKeyPage (pieces : PageResponse String → List Bytes) (items : List Bytes)
    (nextCursor : Option Bytes) : Except ApiError Bytes :=
  if items.any fun key => decide (key.length > maxKeySize) then .error internalError
  else boundedPage pieces id (items.map (encodeKey engine)) (nextCursor.map (encodeKey engine))

/-- The optional cursor of a query: absent, or decoded. -/
def decodeCursor (cursor : Option String) : Option (Option Bytes) :=
  match cursor with
  | none => some none
  | some cursor => (decodeKey engine (some cursor) false).map some

/-- The route; a query that does not parse is `none`. -/
def listKeysRoute (fault : Option StoreError) (s : Store)
    (pieces : PageResponse String → List Bytes) (query : Option KeyPageQuery) :
    Except ApiError Bytes :=
  match query with
  | none => .error invalidRequest
  | some query =>
    match pageSize query.limit with
    | none => .error invalidRequest
    | some limit =>
      match decodeKey engine query.pfx true with
      | none => .error invalidRequest
      | some pfx =>
        match decodeCursor engine query.cursor with
        | none => .error invalidRequest
        | some cursor =>
          match listKeys fault s pfx cursor limit with
          | .error error => .error (controlErrorResponse error)
          | .ok page => boundedKeyPage engine pieces page.items page.nextCursor

end Route

end Numax
