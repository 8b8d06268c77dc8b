import SearchPipeline.Decimal128
import SearchPipeline.ObjectId

/-!
# Values and documents

The values a document database stores and compares.  A document is a list of
entries in order; documents that come from a text or are built with
`Document.insert` never name a key twice.
-/

namespace SearchPipeline

/-- A value of the document database. -/
inductive Bson where
  | double (value : Binary64)
  | string (value : String)
  | document (entries : List (String × Bson))
  | array (items : List Bson)
  | binary (kind : UInt8) (bytes : List UInt8)
  | undefined
  | objectId (value : ObjectId)
  | boolean (value : Bool)
  | dateTime (milliseconds : Int64)
  | null
  | regex (pattern options : String)
  | code (text : String)
  | codeWithScope (text : String) (scope : List (String × Bson))
  | symbol (text : String)
  | int32 (value : Int32)
  | timestamp (seconds increment : UInt32)
  | int64 (value : Int64)
  | decimal128 (value : Decimal128)
  /-- A document named by its collection and its identifier. -/
  | dbPointer (collection : String) (identifier : ObjectId)
  | minKey
  | maxKey

/-- Keys and their values, in order. -/
abbrev Document := List (String × Bson)

/-- The number one, as inclusion projections and sorts use it. -/
def Bson.one : Bson := .int32 1

/-- A value that is one entry. -/
def Bson.entry (key : String) (value : Bson) : Bson :=
  .document [(key, value)]

namespace Document

/-- The value under a key. -/
def get? : Document → String → Option Bson
  | [], _ => none
  | (key, value) :: rest, wanted => if key = wanted then some value else get? rest wanted

/-- Puts a value under a key: in its place if the key is there, else at the end. -/
def insert : Document → String → Bson → Document
  | [], key, value => [(key, value)]
  | (other, old) :: rest, key, value =>
    if other = key then (other, value) :: rest else (other, old) :: insert rest key value

/-- The keys in order. -/
def keys (document : Document) : List String :=
  document.map (·.1)

/-- After an insertion the key has the new value, and every other key what it had. -/
theorem get?_insert
    (document : Document)
    (key : String)
    (value : Bson)
    (wanted : String) :
    get? (insert document key value) wanted =
      if key = wanted then some value else get? document wanted := by
  induction document with
  | nil => rfl
  | cons entry rest induction =>
      obtain ⟨other, old⟩ := entry
      by_cases same : other = key
      · subst same
        by_cases found : other = wanted
        · simp [insert, get?, found]
        · simp [insert, get?, found]
      · by_cases found : other = wanted
        · subst found
          simp [insert, get?, same, Ne.symm same]
        · simp [insert, get?, same, found, induction]

/-- An insertion keeps the keys in their places; a new key follows them. -/
theorem keys_insert
    (document : Document)
    (key : String)
    (value : Bson) :
    keys (insert document key value) =
      if key ∈ keys document then keys document else keys document ++ [key] := by
  induction document with
  | nil => rfl
  | cons entry rest induction =>
      obtain ⟨other, old⟩ := entry
      by_cases same : other = key
      · simp [insert, keys, same]
      · have unfolded :
            keys (insert ((other, old) :: rest) key value) =
              other :: keys (insert rest key value) := by
          simp [insert, same, keys]
        have listed : keys ((other, old) :: rest) = other :: keys rest :=
          rfl
        rw [unfolded, induction, listed]
        by_cases member : key ∈ keys rest
        · simp [member]
        · simp [member, Ne.symm same]

/-- Documents that are built by insertions never name a key twice. -/
theorem keys_insert_nodup
    (document : Document)
    (key : String)
    (value : Bson)
    (distinct : (keys document).Nodup) :
    (keys (insert document key value)).Nodup := by
  rw [keys_insert]
  by_cases member : key ∈ keys document
  · rw [if_pos member]
    exact distinct
  · rw [if_neg member]
    refine List.nodup_append.2 ⟨distinct, by simp, ?_⟩
    intro left leftMember right rightMember same
    rw [List.mem_singleton] at rightMember
    subst rightMember same
    exact member leftMember

end Document

end SearchPipeline
