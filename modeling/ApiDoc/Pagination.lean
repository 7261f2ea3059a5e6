import ApiDoc.Schema.Basic
import ApiDoc.Text.Basic

/-!
# Pages

A page of a model lists some of its instances and says where the others are found.  Two
kinds of page have a schema of their own.
-/

namespace ApiDoc

/-- A kind of page. -/
inductive PageKind
  /-- Links to the neighbouring pages. -/
  | simple
  /-- Also the number of entries and the last page. -/
  | lengthAware
deriving DecidableEq, Repr, Inhabited

namespace PageKind

def ofName? (name : String) : Option PageKind :=
  match name with
  | "simple_paginate" => some .simple
  | "paginate" => some .lengthAware
  | _ => none

/-- The names of all kinds. -/
def names : List String := ["simple_paginate", "paginate"]

/-- The address of the first page: host and path with one slash between them. -/
def url (host uri : String) : String :=
  let host := Text.onString (Text.dropEndWhile (· = '/')) host
  if uri.toList.head? = some '/' then host ++ uri else host ++ "/" ++ uri

/-- A property of a scalar type with an example. -/
def sampled (type : String) (value : Json) : Schema :=
  { type := some type, sample := some value }

def number (n : Nat) : Schema :=
  sampled "integer" (.ofNat n)

def link (address : String) : Schema :=
  sampled "string" (.str address)

/-- The properties of every page. -/
def simpleProperties (url model : String) : Dict Schema :=
  [("current_page", number 2),
    ("data", .arrayOf (.ref model)),
    ("first_page_url", link (url ++ "?page=1")),
    ("from", number 16),
    ("next_page_url", link (url ++ "?page=3")),
    ("path", link url),
    ("per_page", number 15),
    ("prev_page_url", link (url ++ "?page=1")),
    ("to", number 30)]

/-- The properties of a page that knows its length. -/
def lengthProperties (url : String) : Dict Schema :=
  [("last_page", number 4), ("last_page_url", link (url ++ "?page=4")), ("total", number 50)]

/-- The properties that every page has. -/
def simpleRequired : List String :=
  ["current_page", "data", "first_page_url", "path", "per_page"]

/-- The schema of a page of a model. -/
def schema (kind : PageKind) (host model uri : String) : Schema :=
  let url := url host uri
  match kind with
  | .simple =>
      { type := some "object", properties := some (simpleProperties url model),
        required := some simpleRequired }
  | .lengthAware =>
      { type := some "object"
        properties :=
          some (Dict.insertAll (simpleProperties url model) (lengthProperties url))
        required := some (simpleRequired ++ ["last_page", "last_page_url", "total"]) }

end PageKind

end ApiDoc
