import Numax.Base.Json
import Numax.Core.Storage

/-!
# The JSON forms of the stored values

The texts the derived serializers of `nx-sync` produce, as a value of `Serde`:
records by field name in declaration order, enumerations by variant name, maps
and sets in key order, byte strings as arrays of numbers.
-/

open Base Base.Json Base.Json.Codec Std

namespace Numax

namespace JsonForm

/-- `Vec<u8>`. -/
def bytes : Codec Bytes := list u8 (imap_leads (nat_leads fun c h => by rintro rfl; cases h))

theorem bytes_leads_item : bytes.Leads (· ≠ ']') := list_leads (by decide)

/-- `Vec<String>`. -/
def strings : Codec (List String) := list string string_leads_item

theorem entry_leads_item : (pair string bytes).Leads (· ≠ ']') := pair_leads (by decide)

/-- `BTreeSet<String>`, in ascending order. -/
def stringSet : Codec (OrdSet String) :=
  strings.imap (fun xs => some (ExtTreeSet.ofList xs)) ExtTreeSet.toList fun s => by
    have h : ExtTreeSet.ofList s.toList = s := by
      apply ExtTreeSet.ext_mem
      intro x
      rw [ExtTreeSet.mem_ofList, List.contains_iff_mem, ExtTreeSet.mem_toList]
    rw [h]

/-- The last field of a record. -/
def last {α : Type} (lead : Char) (name : String) (c : Codec α) : Codec (α × Unit) :=
  field lead name c done done_leads_nondigit

theorem last_leads {α : Type} {lead : Char} {name : String} {c : Codec α} {P : Char → Prop}
    (h : P lead) : (last lead name c).Leads P := field_leads h

/-- A record of two fields. -/
def record2 {α β : Type} (n₁ : String) (a : Codec α) (n₂ : String) (b : Codec β) :
    Codec (α × β) :=
  (field '\x7b' n₁ a (last ',' n₂ b) (last_leads (by decide))).imap
    (fun p => some (p.1, p.2.1)) (fun p => (p.1, p.2, ())) fun _ => rfl

/-- A record of three fields. -/
def record3 {α β γ : Type} (n₁ : String) (a : Codec α) (n₂ : String) (b : Codec β)
    (n₃ : String) (c : Codec γ) : Codec (α × β × γ) :=
  (field '\x7b' n₁ a (field ',' n₂ b (last ',' n₃ c) (last_leads (by decide)))
    (field_leads (by decide))).imap
    (fun p => some (p.1, p.2.1, p.2.2.1)) (fun p => (p.1, p.2.1, p.2.2, ())) fun _ => rfl

/-- A record of four fields. -/
def record4 {α β γ δ : Type} (n₁ : String) (a : Codec α) (n₂ : String) (b : Codec β)
    (n₃ : String) (c : Codec γ) (n₄ : String) (d : Codec δ) : Codec (α × β × γ × δ) :=
  (field '\x7b' n₁ a (field ',' n₂ b (field ',' n₃ c (last ',' n₄ d) (last_leads (by decide)))
    (field_leads (by decide))) (field_leads (by decide))).imap
    (fun p => some (p.1, p.2.1, p.2.2.1, p.2.2.2.1))
    (fun p => (p.1, p.2.1, p.2.2.1, p.2.2.2, ())) fun _ => rfl

/-! ## CRDT states -/

def gcounter : Codec GCounter :=
  (last '\x7b' "counts" (strMap u64)).imap (fun p => some { counts := p.1 })
    (fun c => (c.counts, ())) fun _ => rfl

def pncounter : Codec PNCounter :=
  (record2 "positive" gcounter "negative" gcounter).imap
    (fun p => some { positive := p.1, negative := p.2 }) (fun c => (c.positive, c.negative))
    fun _ => rfl

def lwwRegister : Codec LwwRegister :=
  (record3 "value" bytes "timestamp_ms" u64 "writer" string).imap
    (fun p => some { value := p.1, timestampMs := p.2.1, writer := p.2.2 })
    (fun r => (r.value, r.timestampMs, r.writer)) fun _ => rfl

def lwwMapEntry : Codec LwwMapEntry :=
  (record3 "value" (option bytes (list_leads (by decide))) "timestamp_ms" u64
    "writer" string).imap
    (fun p => some { value := p.1, timestampMs := p.2.1, writer := p.2.2 })
    (fun e => (e.value, e.timestampMs, e.writer)) fun _ => rfl

def lwwMap : Codec LwwMap :=
  (last '\x7b' "entries" (strMap lwwMapEntry)).imap (fun p => some { entries := p.1 })
    (fun m => (m.entries, ())) fun _ => rfl

def orset : Codec ORSet :=
  (record2 "adds" (strMap stringSet) "removes" (strMap stringSet)).imap
    (fun p => some { adds := p.1, removes := p.2 }) (fun s => (s.adds, s.removes)) fun _ => rfl

def rgaElement : Codec RgaElement :=
  (record3 "id" string "parent" (option string string_leads_some) "value" bytes).imap
    (fun p => some { id := p.1, parent := p.2.1, value := p.2.2 })
    (fun e => (e.id, e.parent, e.value)) fun _ => rfl

/-- The stored id of every element is its key; other texts are rejected. -/
def rga : Codec Rga :=
  (record2 "elements" (strMap rgaElement) "tombstones" stringSet).imap
    (fun p =>
      if h : ∀ q ∈ p.1.toList, q.2.id = q.1 then
        some
          { elements := p.1
            tombstones := p.2
            keyed := fun k e he => h (k, e) ((OrdMap.mem_toList p.1).mpr he) }
      else none)
    (fun r => (r.elements, r.tombstones)) fun r => by
      rw [dif_pos]
      rintro ⟨k, e⟩ hq
      exact r.keyed k e ((OrdMap.mem_toList r.elements).mp hq)

def state : (k : CrdtKind) → Codec k.State
  | .gcounter => gcounter
  | .pncounter => pncounter
  | .lwwRegister => lwwRegister
  | .lwwMap => lwwMap
  | .orset => orset
  | .rga => rga

/-! ## Operations -/

def counterOp (amount : String) : Codec (String × UInt64) :=
  record2 "key" string amount u64

def registerSet : Codec (String × Bytes × UInt64) :=
  record3 "key" string "value" bytes "timestamp_ms" u64

def mapSet : Codec (String × String × Bytes × UInt64) :=
  record4 "key" string "field" string "value" bytes "timestamp_ms" u64

def mapRemove : Codec (String × String × UInt64) :=
  record3 "key" string "field" string "timestamp_ms" u64

def setAdd : Codec (String × String × String) :=
  record3 "key" string "element" string "tag" string

def setRemove : Codec (String × String × List String) :=
  record3 "key" string "element" string "observed_tags" strings

def arrayInsert : Codec (String × String × Option String × Bytes) :=
  record4 "key" string "id" string "parent" (option string string_leads_some)
    "value" bytes

def arrayDelete : Codec (String × String) := record2 "key" string "id" string

/-- The variant name of an operation and the text of its fields. -/
def variant : OpKind → String × List Char
  | .gcounterIncrement key increment =>
    ("GCounterIncrement", (counterOp "increment").print (key, increment))
  | .pncounterIncrement key increment =>
    ("PNCounterIncrement", (counterOp "increment").print (key, increment))
  | .pncounterDecrement key decrement =>
    ("PNCounterDecrement", (counterOp "decrement").print (key, decrement))
  | .lwwRegisterSet key value timestampMs =>
    ("LwwRegisterSet", registerSet.print (key, value, timestampMs))
  | .lwwMapSet key field value timestampMs =>
    ("LwwMapSet", mapSet.print (key, field, value, timestampMs))
  | .lwwMapRemove key field timestampMs =>
    ("LwwMapRemove", mapRemove.print (key, field, timestampMs))
  | .orsetAdd key element tag => ("ORSetAdd", setAdd.print (key, element, tag))
  | .orsetRemove key element observedTags =>
    ("ORSetRemove", setRemove.print (key, element, observedTags))
  | .rgaInsert key id parent value => ("RgaInsert", arrayInsert.print (key, id, parent, value))
  | .rgaDelete key id => ("RgaDelete", arrayDelete.print (key, id))

/-- Read the fields of a variant. -/
def parseFields {α : Type} (c : Codec α) (make : α → OpKind) (s : List Char) :
    Option (OpKind × List Char) :=
  (c.parse s).map fun p => (make p.1, p.2)

theorem parseFields_print {α : Type} (c : Codec α) (make : α → OpKind) (a : α)
    (rest : List Char) (h : Ends rest) :
    parseFields c make (c.print a ++ rest) = some (make a, rest) := by
  rw [parseFields, c.parse_print a rest h]
  rfl

def parseVariant (name : String) : List Char → Option (OpKind × List Char) :=
  match name with
  | "GCounterIncrement" => parseFields (counterOp "increment") fun p => .gcounterIncrement p.1 p.2
  | "PNCounterIncrement" =>
    parseFields (counterOp "increment") fun p => .pncounterIncrement p.1 p.2
  | "PNCounterDecrement" =>
    parseFields (counterOp "decrement") fun p => .pncounterDecrement p.1 p.2
  | "LwwRegisterSet" => parseFields registerSet fun p => .lwwRegisterSet p.1 p.2.1 p.2.2
  | "LwwMapSet" => parseFields mapSet fun p => .lwwMapSet p.1 p.2.1 p.2.2.1 p.2.2.2
  | "LwwMapRemove" => parseFields mapRemove fun p => .lwwMapRemove p.1 p.2.1 p.2.2
  | "ORSetAdd" => parseFields setAdd fun p => .orsetAdd p.1 p.2.1 p.2.2
  | "ORSetRemove" => parseFields setRemove fun p => .orsetRemove p.1 p.2.1 p.2.2
  | "RgaInsert" => parseFields arrayInsert fun p => .rgaInsert p.1 p.2.1 p.2.2.1 p.2.2.2
  | "RgaDelete" => parseFields arrayDelete fun p => .rgaDelete p.1 p.2
  | _ => fun _ => none

theorem parseVariant_variant (kind : OpKind) (rest : List Char) (h : Ends rest) :
    parseVariant (variant kind).1 ((variant kind).2 ++ rest) = some (kind, rest) := by
  cases kind <;> simp only [variant, parseVariant, parseFields_print _ _ _ rest h]

/-- An enumeration is an object with the variant name as its only key. -/
def opKind : Codec OpKind where
  print kind :=
    '\x7b' :: (string.print (variant kind).1 ++ ':' :: ((variant kind).2 ++ ['\x7d']))
  parse s := do
    let s ← expect ['\x7b'] s
    let (name, s) ← string.parse s
    let s ← expect [':'] s
    let (kind, s) ← parseVariant name s
    let s ← expect ['\x7d'] s
    some (kind, s)
  parse_print kind rest _ := by
    have hopen := expect_append ['\x7b']
      (string.print (variant kind).1 ++ ':' :: ((variant kind).2 ++ '\x7d' :: rest))
    have hcolon := expect_append [':'] ((variant kind).2 ++ '\x7d' :: rest)
    have hclose := expect_append ['\x7d'] rest
    simp only [List.singleton_append] at hopen hcolon hclose
    have hname := string.parse_print (variant kind).1
      (':' :: ((variant kind).2 ++ '\x7d' :: rest)) (ends_cons (by decide))
    have hfields := parseVariant_variant kind ('\x7d' :: rest) (ends_cons (by decide))
    simp [List.append_assoc, hopen, hname, hcolon, hfields, hclose]

def op : Codec Op :=
  (record3 "id" string "origin" string "kind" opKind).imap
    (fun p => some { id := p.1, origin := p.2.1, kind := p.2.2 })
    (fun o => (o.id, o.origin, o.kind)) fun _ => rfl

/-! ## The serializer -/

def toText {α : Type} (c : Codec α) (a : α) : String := String.ofList (c.print a)

def ofText {α : Type} (c : Codec α) (text : String) : Except String α :=
  match c.parseAll text.toList with
  | some a => .ok a
  | none => .error "invalid JSON"

theorem ofText_toText {α : Type} (c : Codec α) (a : α) : ofText c (toText c a) = .ok a := by
  rw [ofText, toText, String.toList_ofList, parseAll_print]

end JsonForm

/-- The serializers of the runtime. -/
def jsonSerde : Serde where
  state k :=
    { toJson := JsonForm.toText (JsonForm.state k)
      fromJson := JsonForm.ofText (JsonForm.state k)
      roundTrip := JsonForm.ofText_toText (JsonForm.state k) }
  op :=
    { toBytes := fun o => asBytes (JsonForm.toText JsonForm.op o)
      fromBytes := fun b =>
        match fromUtf8 b with
        | some text => JsonForm.ofText JsonForm.op text
        | none => .error "invalid UTF-8"
      roundTrip := fun o => by
        simp only [fromUtf8_asBytes]
        exact JsonForm.ofText_toText JsonForm.op o }
  mapEntries entries :=
    asBytes (JsonForm.toText (list (pair string JsonForm.bytes) JsonForm.entry_leads_item) entries)
  setElements elements := asBytes (JsonForm.toText JsonForm.strings elements)
  rgaValues values :=
    asBytes (JsonForm.toText (list JsonForm.bytes JsonForm.bytes_leads_item) values)

end Numax
