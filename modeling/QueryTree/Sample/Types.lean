import QueryTree.Text.Quoted
import QueryTree.Type.Basic

/-!
# Sample types

A collection of declared types to try things out on: customers with their orders and order items,
and record types that show one feature each: embedded records, tags of every kind, tables named by
the type, members that no one may read, and names that need quoting.

## Main definitions

* `Sample.types`: all of them, by name
-/

namespace QueryTree.Sample

/-- A field whose `db` tag has a value. -/
def tagged (name : String) (t : Ty) (db : Text) : Field Ty :=
  ⟨name, t, "db:" ++ db.quoted, false, true⟩

/-- A field without a tag. -/
def plain (name : String) (t : Ty) : Field Ty := ⟨name, t, [], false, true⟩

/-- A field that no one may read. -/
def hidden (name : String) (t : Ty) : Field Ty := ⟨name, t, [], false, false⟩

/-- An embedded record without a tag. -/
def embedded (name : String) (t : Ty) : Field Ty := ⟨name, t, [], true, true⟩

/-- A declared record type. -/
def declared (name : String) (fields : List (Field Ty)) : Ty :=
  .named ⟨"main", name, none⟩ (.record fields)

/-- Who wrote a row. -/
def audit : Ty := declared "Audit"
  [plain "CreatedBy" .string, tagged "UpdatedBy" .string "modified_by,noinsert"]

/-- A customer. -/
def customer : Ty := declared "Customer"
  [tagged "ID" (.int .int64) "id,pk,auto", tagged "Name" .string "name",
    tagged "Email" (.ptr .string) "email", tagged "Active" .bool "active",
    tagged "Age" (.int .int) "age", tagged "Balance" (.float false) "balance,type=decimal",
    tagged "DeletedAt" (.ptr .time) "deleted_at"]

/-- An order of a customer. -/
def order : Ty := declared "Order"
  [tagged "ID" (.int .int64) "id,pk,auto", tagged "CustomerID" (.int .int64) "customer_id",
    tagged "Total" (.float false) "total", tagged "Status" .string "status,type=varchar(20)",
    tagged "Paid" (.ptr .bool) "paid", tagged "ArchivedAt" (.ptr .time) "archived_at",
    tagged "DeletedAt" (.ptr .time) "deleted_at"]

/-- A line of an order; its key has two columns. -/
def orderItem : Ty := declared "OrderItem"
  [tagged "OrderID" (.int .int) "order_id,pk", tagged "LineNo" (.int .int) "line_no,key",
    tagged "Sku" .string " sku , type=char(8) ", tagged "Qty" (.int .uint16) ",type=smallint"]

/-- A point, with methods. -/
def point : Ty := declared "Point"
  [tagged "A" (.int .int) "col_a", tagged "B" (.int .int) "col_b"]

/-- A tag, which has no key. -/
def tag : Ty := declared "Tag" [tagged "Name" .string "name"]

/-- An account, with every kind of tag and an embedded record. -/
def account : Ty := declared "Account"
  [tagged "ID" (.int .int64) "id,pk,auto", tagged "FullName" .string "name",
    tagged "Email" .string ",type=nvarchar", tagged "Secret" .string "-",
    tagged "Version" (.int .int) "version,readonly", plain "UserID" (.int .int),
    hidden "unexposed" .string, embedded "Audit" audit]

/-- A text that may be null. -/
def nullString : Ty := .named ⟨"sql", "NullString", none⟩
  (.record [plain "String" .string, plain "Valid" .bool])

/-- A note, whose body may be null. -/
def note : Ty := declared "Note"
  [tagged "ID" (.int .int64) "id,pk,auto", tagged "Title" .string "title",
    tagged "Body" nullString "body"]

/-- A record with members of composite types. -/
def blob : Ty := declared "Blob"
  [tagged "ID" (.int .int64) "id,pk", plain "Data" .bytes, plain "At" .time,
    plain "Tags" (.slice .string), plain "Meta" (.map .string .any), plain "Any" .any]

/-- A record with a record embedded behind a pointer. -/
def nested : Ty := declared "Nested" [embedded "Audit" (.ptr audit), plain "Name" .string]

/-- A record whose embedded record is one column. -/
def wrapped : Ty := declared "Wrapped"
  [{ tagged "Audit" audit "audit_col" with embedded := true }, plain "Name" .string]

/-- A record with a member of the same name as one of its embedded record. -/
def shadow : Ty := declared "Shadow"
  [tagged "CreatedBy" .string "own_created_by", embedded "Audit" audit]

/-- A person. -/
def person : Ty := declared "Person" [plain "Name" .string]

/-- An address. -/
def address : Ty := declared "Address" [plain "City" .string]

/-- A record type that names its own table. -/
def legacy : Ty := .named ⟨"main", "Legacy", some "tbl_legacy"⟩ (.record [plain "Code" .string])

/-- A record type that names its own table through pointers. -/
def pointerNamed : Ty :=
  .named ⟨"main", "PtrNamed", some "tbl_pointer"⟩ (.record [plain "Code" .string])

/-- A filter, with a method and a hidden member. -/
def filter : Ty := declared "Filter"
  [plain "Min" (.int .int), plain "Name" .string, plain "Tags" (.slice .string),
    plain "Ptr" (.ptr address), hidden "private" (.int .int)]

/-- A record whose column names need quoting. -/
def weird : Ty := declared "Weird"
  [tagged "Dot" .string "a.b", tagged "Quote" .string "q]u\x60o'te",
    tagged "Case" (.int .int) "case", tagged "Is" .bool "x IS y"]

/-- A number that is written by its own rule. -/
def color : Ty := .named ⟨"main", "Color", none⟩ (.int .int)

/-- The sample types by name. -/
def types : List (Text × Ty) :=
  [("Audit", audit), ("Customer", customer), ("Order", order), ("OrderItem", orderItem),
    ("Point", point), ("Tag", tag), ("Account", account), ("Note", note), ("Blob", blob),
    ("Nested", nested), ("Wrapped", wrapped), ("Shadow", shadow), ("Person", person),
    ("Address", address), ("Legacy", legacy), ("PtrNamed", pointerNamed), ("Filter", filter),
    ("Weird", weird), ("Color", color), ("NullString", nullString)]

/-- Short names for rows of the sample entities. -/
def rows : List (String × Ty) :=
  [("c", customer), ("o", order), ("i", orderItem), ("p", point), ("t", tag), ("a", account),
    ("n", note), ("b", blob), ("w", weird)]

end QueryTree.Sample
