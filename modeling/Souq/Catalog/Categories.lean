import Mathlib.Data.List.Sort
import Souq.Lib.PathTree
import Souq.Lib.Program
import Souq.Lib.Transition

/-!
# The category table

`JdbcCategoryRepository` of the catalog service. A category names its parent and
carries the slugs from the root down to itself. Every call is a sequence of
statements, and outside a transaction each statement commits on its own; a
statement that breaks a constraint of the table changes nothing. Two statements
compare a path with an array of a bound string, and whether the server accepts
them depends on the type under which the driver sends the string.
-/

namespace Souq.Catalog

open Transact Transition PathTree

/-- The status of a product. -/
inductive ProductStatus where
  | draft | active | archived | discontinued
  deriving DecidableEq

/-- A row of `products`, as far as the category calls read it. -/
structure Product where
  categoryId : Option String
  status : ProductStatus

/-- A row of `categories`. -/
structure CategoryRow where
  id : String
  slug : String
  name : String
  parentId : Option String
  path : List String
  position : Int
  deriving DecidableEq

/-- A category with the number of products below it. -/
structure Category extends CategoryRow where
  productCount : Nat

/-- The two tables. -/
structure Database where
  categories : List CategoryRow := []
  products : List Product := []

def CategoryRow.node (c : CategoryRow) : Node String String := ⟨c.id, c.slug, c.parentId, c.path⟩

/-- The constraint that a statement breaks. -/
inductive Violation where
  | noSelfParent | primaryKey | slugKey | parentKey
  deriving DecidableEq

/-- How the driver sends a bound string: as a `varchar`, which is the default of its
`stringtype`, or without a type, so that the server infers one. -/
inductive StringType where
  | varchar | unspecified
  deriving DecidableEq

/-- What a call throws. -/
inductive Failure where
  | illegalArgument (message : String)
  | cycleWouldBeCreated (message : String)
  | dataIntegrityViolation (violated : Violation)
  | badSqlGrammar (message : String)
  deriving DecidableEq

/-- `path @> ARRAY[:slug]`, without a cast. The array of a `varchar` is a `varchar[]`, and
there is no operator between it and the `text[]` of the column. -/
def StringType.containment : StringType → Except Failure Unit
  | .varchar => .error (.badSqlGrammar "operator does not exist: text[] @> character varying[]")
  | .unspecified => .ok ()

namespace Database

/-- What a `SELECT` makes of a row. -/
def category (db : Database) (c : CategoryRow) : Category where
  toCategoryRow := c
  productCount := db.products.countP fun p => p.categoryId = some c.id ∧ p.status = .active

def findById (db : Database) (id : String) : Option Category :=
  (db.categories.find? fun c => c.id = id).map db.category

/-- Parents before children, siblings by position. -/
def subtree (db : Database) (rootSlug : String) : List Category :=
  ((db.categories.filter fun c => rootSlug ∈ c.path).map db.category).insertionSort fun c d =>
    c.path.length < d.path.length ∨ c.path.length = d.path.length ∧ c.position ≤ d.position

def findSubtree (strings : StringType) (db : Database) (rootSlug : String) :
    Except Failure (List Category) :=
  strings.containment.map fun _ => db.subtree rootSlug

/-- The path of a child of a category. A missing parent gives no path, and to
concatenate nothing with an array gives the array. -/
def pathUnder (db : Database) (parentId : Option String) (slug : String) : List String :=
  match parentId with
  | none => [slug]
  | some parentId =>
    ((db.categories.find? fun c => c.id = parentId).elim [] CategoryRow.path) ++ [slug]

/-- The first constraint that a table breaks. -/
def violated (categories : List CategoryRow) : Option Violation :=
  if ∃ c ∈ categories, c.parentId = some c.id then some .noSelfParent
  else if ¬ (categories.map CategoryRow.id).Nodup then some .primaryKey
  else if ¬ (categories.map CategoryRow.slug).Nodup then some .slugKey
  else if ∃ c ∈ categories, c.parentId.any fun parentId => categories.all fun d => d.id ≠ parentId
    then some .parentKey
  else none

/-- A statement leaves a table behind, unless that breaks a constraint. -/
def leave (categories : List CategoryRow) : Except Violation Unit :=
  match violated categories with
  | some constraint => .error constraint
  | none => .ok ()

def inserted (db : Database) (id slug name : String) (parentId : Option String) (position : Int) :
    List CategoryRow :=
  db.categories ++ [⟨id, slug, name, parentId, db.pathUnder parentId slug, position⟩]

def rehung (db : Database) (id slug : String) (parentId : Option String) (oldDepth : Nat) :
    List CategoryRow :=
  let newPrefix := db.pathUnder parentId slug
  db.categories.map fun c =>
    if slug ∈ c.path then
      { c with
        path := newPrefix ++ c.path.drop oldDepth
        parentId := if c.id = id then parentId else c.parentId }
    else c

/-- The table with a category's name and position replaced where they are given. -/
def renamed (db : Database) (id : String) (name : Option String) (position : Option Int) :
    List CategoryRow :=
  db.categories.map fun c =>
    if c.id = id then { c with name := name.getD c.name, position := position.getD c.position }
    else c

def empty (db : Database) (id : String) : Bool :=
  db.categories.all (fun c => c.parentId ≠ some id) &&
    db.products.all fun p => p.categoryId ≠ some id

end Database

/-- A statement of the repository. -/
inductive Stmt where
  | findById (id : String)
  | insert (id slug name : String) (parentId : Option String) (position : Int)
  | rename (id : String) (name : Option String) (position : Option Int)
  /-- The `UPDATE` of a move. -/
  | rehang (id slug : String) (parentId : Option String) (oldDepth : Nat)
  | deleteIfEmpty (id : String)

def Stmt.Answer : Stmt → Type
  | .findById _ => Option Category
  | .insert .. | .rehang .. => Except Violation Unit
  | .rename .. | .deleteIfEmpty _ => Nat

def Stmt.answer : (q : Stmt) → Database → q.Answer
  | .findById id, db => db.findById id
  | .insert id slug name parentId position, db =>
    Database.leave (db.inserted id slug name parentId position)
  | .rename id _ _, db => db.categories.countP fun c => c.id = id
  | .rehang id slug parentId oldDepth, db => Database.leave (db.rehung id slug parentId oldDepth)
  | .deleteIfEmpty id, db => db.categories.countP fun c => c.id = id ∧ db.empty id

/-- A write is the table it leaves behind. -/
def Stmt.writes : Stmt → Database → List (List CategoryRow)
  | .findById _, _ => []
  | .insert id slug name parentId position, db =>
    let categories := db.inserted id slug name parentId position
    if Database.violated categories = none then [categories] else []
  | .rename id name position, db => [db.renamed id name position]
  | .rehang id slug parentId oldDepth, db =>
    let categories := db.rehung id slug parentId oldDepth
    if Database.violated categories = none then [categories] else []
  | .deleteIfEmpty id, db => [db.categories.filter fun c => ¬ (c.id = id ∧ db.empty id)]

def dialect : Dialect where
  Db := Database
  Stmt := Stmt
  Answer := Stmt.Answer
  Write := List CategoryRow
  Key := Empty
  answer := Stmt.answer
  writes := Stmt.writes
  put := fun categories db => { db with categories := categories }
  keys := fun _ _ => []
  skip := fun _ => none

/-- A call of the repository. -/
abbrev Call := Program dialect Failure

def statement (q : Stmt) : Call q.Answer := Program.stmt (D := dialect) q

def refusable (outcome : Except Violation Unit) : Call Unit :=
  match outcome with
  | .ok () => return ()
  | .error constraint => .fail (.dataIntegrityViolation constraint)

def insert (id slug name : String) (parentId : Option String) (position : Int) : Call Unit := do
  refusable (← statement (.insert id slug name parentId position))

def rename (id : String) (name : Option String) (position : Option Int) : Call Nat :=
  statement (.rename id name position)

def noCategory (id : String) : Failure := .illegalArgument ("no category " ++ id)

def cycle (id newParent : String) : Failure :=
  .cycleWouldBeCreated ("moving " ++ id ++ " under " ++ newParent ++ " would create a cycle")

def rehang (strings : StringType) (id slug : String) (parentId : Option String) (oldDepth : Nat) :
    Call Unit :=
  match strings.containment with
  | .error failure => .fail failure
  | .ok () => do refusable (← statement (.rehang id slug parentId oldDepth))

/-- The rest of a move once the target has been read. The target's path has the
category's slug exactly when the target is below it. -/
def moveTo (strings : StringType) (id : String) (current : Category) (parentId : String) :
    Option Category → Call Unit
  | none => .fail (noCategory parentId)
  | some target =>
    if current.slug ∈ target.path then .fail (cycle id parentId)
    else rehang strings id current.slug (some parentId) current.path.length

/-- The rest of a move once the category has been read. -/
def moveFrom (strings : StringType) (id : String) (newParentId : Option String) :
    Option Category → Call Unit
  | none => .fail (noCategory id)
  | some current =>
    match newParentId with
    | none => rehang strings id current.slug none current.path.length
    | some parentId => do moveTo strings id current parentId (← statement (.findById parentId))

def move (strings : StringType) (id : String) (newParentId : Option String) : Call Unit := do
  moveFrom strings id newParentId (← statement (.findById id))

def deleteIfEmpty (id : String) : Call Bool := do
  let deleted : Nat ← statement (.deleteIfEmpty id)
  return deleted == 1

/-- A call by its arguments. -/
inductive Request where
  | insert (id slug name : String) (parentId : Option String) (position : Int)
  | rename (id : String) (name : Option String) (position : Option Int)
  | move (id : String) (newParentId : Option String)
  | deleteIfEmpty (id : String)

/-- The tables after a call with nothing else running. -/
def Request.after (strings : StringType) (db : Database) : Request → Database
  | .insert id slug name parentId position =>
    ((Catalog.insert id slug name parentId position).run db).2
  | .rename id name position => ((Catalog.rename id name position).run db).2
  | .move id newParentId => ((Catalog.move strings id newParentId).run db).2
  | .deleteIfEmpty id => ((Catalog.deleteIfEmpty id).run db).2

/-- The call throws, or reports that nothing was changed. -/
def Request.Failed (strings : StringType) (db : Database) : Request → Prop
  | .insert id slug name parentId position =>
    ((Catalog.insert id slug name parentId position).run db).1 ≠ .ok ()
  | .rename id name position => ((Catalog.rename id name position).run db).1 = .ok 0
  | .move id newParentId => ((Catalog.move strings id newParentId).run db).1 ≠ .ok ()
  | .deleteIfEmpty id => ((Catalog.deleteIfEmpty id).run db).1 = .ok false

/-- A call, or a change of the products. -/
inductive Event where
  | call (request : Request)
  /-- Products are filed, moved and removed by others. -/
  | products (rows : List Product)

/-- One event after another. -/
def Database.step (strings : StringType) (db : Database) : Event → Database
  | .call request => request.after strings db
  | .products rows => { db with products := rows }

end Souq.Catalog
