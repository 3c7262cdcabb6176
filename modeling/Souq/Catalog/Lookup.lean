import Souq.Catalog.Accepted
import Souq.Catalog.Slugs

/-!
# Finding a product by its slug

`ProductService.require` as an admin calls it, for the slug that `create` has given to a
product. A slug that begins like an id is looked up as one.
-/

namespace Souq.Catalog.Products

open Transact Slugs List

def Database.findBySlug (db : Database) (slug : String) : Option Product :=
  (db.products.find? fun row => row.slug = slug).map db.assemble

/-- `require`, with unpublished products. -/
def require (db : Database) (idOrSlug : String) : Except Failure Product :=
  let found :=
    if "prd_".toList.isPrefixOf idOrSlug.toList then db.findById idOrSlug
    else db.findBySlug idOrSlug
  found.elim (.error (.notFound ("product " ++ idOrSlug ++ " does not exist"))) .ok

/-- The slug of a title, whose units are ASCII. -/
def titleSlug (u : Unicode) (title : String) : Option String :=
  (slugFrom u (some (utf16 title))).map fun slug =>
    String.ofList (slug.map fun c => Char.ofNat c.toNat)

/-- `Ulid.product()`. -/
def Ulid (id : String) : Prop :=
  ∃ suffix : List Char, id.toList = "prd_".toList ++ suffix ∧ suffix.length = 26 ∧
    ∀ c ∈ suffix, c ∈ "0123456789ABCDEFGHJKMNPQRSTVWXYZ".toList

/-- Something of the title can be kept, and what is kept is not reserved. -/
def Usable (u : Unicode) (title : String) : Prop :=
  (∃ c ∈ u.nfd (utf16 title), slugChar (u.toLowerCase c)) ∧
    canonical u (u.nfd (utf16 title)) ∉ reserved

variable {u : Unicode} {platform : Platform} {request : NewProduct} {id : String} {change : ID}
  {db after : Database} {product : Product}

theorem titleSlug_isSome (title : String) : (titleSlug u title).isSome ↔ Usable u title := by
  rw [titleSlug, Option.isSome_map, ← Option.ne_none_iff_isSome, Ne, slugFrom_eq_none, not_or,
    not_forall]
  simp [Usable]

theorem titleSlug_plain {title base : String} (slug : titleSlug u title = some base) :
    base.toList ≠ [] ∧ '_' ∉ base.toList := by
  obtain ⟨text, kept, rfl⟩ := Option.map_eq_some_iff.mp slug
  have groups := (groups_of_slugFrom kept).1
  rw [String.toList_ofList]
  refine ⟨by simpa using groups.ne_nil, fun member => ?_⟩
  obtain ⟨c, inside, same⟩ := mem_map.mp member
  have ascii : ∀ n < 128, Char.ofNat n = '_' → n = 95 := by decide
  rcases groups.mem c inside with letter | rfl
  · simp [slugChar, UInt16.le_iff_toNat_le] at letter
    have := ascii c.toNat (by omega) same
    omega
  · exact absurd same (by decide)

theorem not_id_of_plain {base tail : List Char} (some' : base ≠ []) (plain : '_' ∉ base)
    (late : '_' ∉ tail.take 3) : "prd_".toList.isPrefixOf (base ++ tail) = false := by
  refine Bool.eq_false_iff.mpr fun begins => ?_
  obtain ⟨rest, whole⟩ := isPrefixOf_iff_prefix.mp begins
  have member : '_' ∈ (base ++ tail).take 4 := by
    rw [← whole]
    exact mem_of_getLast? (show ['p', 'r', 'd', '_'].getLast? = some '_' from rfl)
  rw [take_append] at member
  rcases mem_append.mp member with front | back
  · exact plain (mem_of_mem_take front)
  · have short : 4 - base.length ≤ 3 := by
      have := length_pos_iff.mpr some'
      omega
    exact late (take_subset_take_left _ short back)

theorem toList_toLower (text : String) : text.toLower.toList = text.toList.map Char.toLower :=
  String.toList_map

theorem ulid_lower (drawn : Ulid id) :
    ∃ rest, id.toLower.toList = "prd_".toList ++ rest := by
  obtain ⟨suffix, whole, -⟩ := drawn
  exact ⟨suffix.map Char.toLower, by simp [toList_toLower, whole]⟩

theorem slug_of_uniqueFrom (drawn : Ulid id) {slug : String}
    (ran : (uniqueFrom (titleSlug u request.title) id).run db = (.ok slug, after)) :
    (Usable u request.title ∧ "prd_".toList.isPrefixOf slug.toList = false) ∨
      (¬ Usable u request.title ∧ slug = id.toLower) := by
  obtain ⟨-, shape⟩ := of_uniqueFrom ran
  rw [← titleSlug_isSome]
  cases titled : titleSlug u request.title with
  | none =>
    rw [titled] at shape
    exact .inr ⟨by decide, shape⟩
  | some base =>
    rw [titled] at shape
    obtain ⟨some', plain⟩ := titleSlug_plain titled
    refine .inl ⟨rfl, ?_⟩
    rcases shape with rfl | ⟨tail, rfl, lower | ⟨n, digits⟩⟩
    · simpa using not_id_of_plain some' plain (by decide : '_' ∉ ([] : List Char).take 3)
    · obtain ⟨rest, starts⟩ := ulid_lower drawn
      rw [lower, String.toList_append, String.toList_append, starts, append_assoc]
      exact not_id_of_plain some' plain (by simp)
    · rw [digits, String.toList_append, String.toList_append, append_assoc]
      refine not_id_of_plain some' plain fun member => ?_
      have inside := mem_of_mem_take member
      rw [mem_append] at inside
      rcases inside with sign | digit
      · exact absurd sign (by decide)
      · rw [Nat.toString_eq_repr, Nat.toList_repr] at digit
        exact Nat.underscore_not_in_toDigits digit

theorem insertProduct_ok {row : ProductRow} (accepted : db.insertProduct row = .ok ()) :
    db.product row.id = none ∧ ∀ other ∈ db.products, other.slug ≠ row.slug := by
  unfold Database.insertProduct at accepted
  split_ifs at accepted with stored taken
  refine ⟨Option.not_isSome_iff_eq_none.mp stored, fun other member same => taken ?_⟩
  exact any_eq_true.mpr ⟨other, member, decide_eq_true same⟩

theorem stored_of_create (ran : (create platform request id change).run db = (.ok product, after)) :
    (∀ row ∈ db.products, row.slug ≠ product.slug) ∧ product.id = id ∧
    (uniqueFrom (platform.slug request.title) id).run db = (.ok product.slug, db) ∧
    after.findBySlug product.slug = some (after.assemble product.row) ∧
    after.findById id = some (after.assemble product.row) := by
  obtain ⟨category, slug, stocked, -, names, inserted, stocks, made, rfl⟩ := create_ran ran
  have row : (request.product id slug category).row = product.row := by
    rw [made]
    rfl
  rw [row] at inserted stocks
  obtain ⟨fresh, apart⟩ := insertProduct_ok inserted
  have id' : product.row.id = id := by rw [← row]; rfl
  have slug' : product.row.slug = slug := by rw [← row]; rfl
  have shelf := (shelf_of_putVariants stocks).products
  have absent : ∀ other ∈ db.products, other.id ≠ product.row.id := fun other member same =>
    find?_eq_none.mp fresh other member (decide_eq_true same)
  rw [← slug'] at names
  refine ⟨apart, id', names, Option.map_eq_some_iff.mpr ⟨_, ?_, rfl⟩,
    Option.map_eq_some_iff.mpr ⟨_, ?_, rfl⟩⟩
  · have others : (db.products.find? fun other => other.slug = product.row.slug) = none :=
      find?_eq_none.mpr fun other member => by simpa using apart other member
    change (stocked.products.find? fun other => other.slug = product.row.slug) = _
    rw [shelf.trans (Table.upsert_of_absent absent), find?_append, others]
    simp
  · change Table.find ProductRow.id stocked.products id = _
    rw [shelf]
    change Table.find ProductRow.id (Table.upsert ProductRow.id product.row db.products) id = _
    rw [Table.find_upsert, if_pos id']

/-- The slug is new, and the product is found by it unless its slug is its id with the letters
written small. -/
theorem found_by_slug_iff (slugs : platform.slug = titleSlug u) (drawn : Ulid id)
    (ran : (create platform request id change).run db = (.ok product, after)) :
    (∀ row ∈ db.products, row.slug ≠ product.slug) ∧
      (require after product.slug = .ok (after.assemble product.row) ↔
        Usable u request.title ∨ id.toLower = id) := by
  obtain ⟨apart, named, names, bySlug, byId⟩ := stored_of_create ran
  refine ⟨apart, ?_⟩
  rw [slugs] at names
  unfold require
  rcases slug_of_uniqueFrom drawn names with ⟨usable, plain⟩ | ⟨unusable, lower⟩
  · rw [plain, if_neg Bool.false_ne_true, bySlug]
    exact iff_of_true rfl (.inl usable)
  · obtain ⟨rest, starts⟩ := ulid_lower drawn
    have begins : "prd_".toList.isPrefixOf product.slug.toList = true := by
      rw [lower, starts]
      exact isPrefixOf_iff_prefix.mpr (prefix_append _ _)
    rw [begins, if_pos rfl, lower]
    simp only [unusable, false_or]
    constructor
    · intro answered
      cases found : after.findById id.toLower with
      | none => simp [found] at answered
      | some other =>
        simp only [found, Option.elim_some, Except.ok.injEq] at answered
        obtain ⟨row, stored, rfl⟩ := Option.map_eq_some_iff.mp found
        exact (Table.key_of_find stored).symm.trans ((congrArg Product.id answered).trans named)
    · intro same
      rw [same, byId]
      rfl

def plainTitles : Platform where
  isBlank text := text = ""
  uri _ := none
  slug := titleSlug basic
  allowedImageHosts := []

/-- A new product and the database after it was created in an empty one. -/
def filed (title slug : String) : Product where
  id := "prd_01ARZ3NDEKTSV4RRFFQ69G5FAV"
  slug := slug
  title := title
  description := ""
  brand := none
  categoryId := none
  categoryPath := []
  attributes := []
  images := []
  status := .draft
  variants := []
  version := 0

def shelved (title : String) : Database :=
  ((create plainTitles { title := title } "prd_01ARZ3NDEKTSV4RRFFQ69G5FAV" 1).run {}).2

theorem sampled : Ulid "prd_01ARZ3NDEKTSV4RRFFQ69G5FAV" :=
  ⟨"01ARZ3NDEKTSV4RRFFQ69G5FAV".toList, by decide, by decide, forall_iff_forall_mem.mp (by decide)⟩

theorem latin_found : require (shelved "Café") "cafe" =
    .ok ((shelved "Café").assemble (filed "Café" "cafe").row) :=
  (found_by_slug_iff rfl sampled
    (show (create plainTitles { title := "Café" } "prd_01ARZ3NDEKTSV4RRFFQ69G5FAV" 1).run {} =
      (.ok (filed "Café" "cafe"), shelved "Café") from rfl)).2.mpr
    (.inl ⟨⟨0x43, by decide⟩, by decide⟩)

/-- A title in Arabic letters has the lower-cased id for its slug, and there is no such id. -/
theorem arabic_not_found : ¬ ∀ (u : Unicode) (platform : Platform) (request : NewProduct)
    (id : String) (change : ID) (db after : Database) (product : Product),
    platform.slug = titleSlug u → Ulid id →
    (create platform request id change).run db = (.ok product, after) →
    (∀ row ∈ db.products, row.slug ≠ product.slug) ∧
      ∃ found, require after product.slug = .ok found ∧ found.id = product.id := by
  intro reachable
  obtain ⟨-, found, answered, -⟩ := reachable basic plainTitles { title := "كتاب" }
    "prd_01ARZ3NDEKTSV4RRFFQ69G5FAV" 1 {} (shelved "كتاب")
    (filed "كتاب" "prd_01ARZ3NDEKTSV4RRFFQ69G5FAV".toLower)
    rfl sampled rfl
  have lower : "prd_01ARZ3NDEKTSV4RRFFQ69G5FAV".toLower = "prd_01arz3ndektsv4rrffq69g5fav" :=
    String.toList_injective (by rw [toList_toLower]; decide)
  have missing : require (shelved "كتاب") "prd_01arz3ndektsv4rrffq69g5fav" =
    .error (.notFound "product prd_01arz3ndektsv4rrffq69g5fav does not exist") := rfl
  rw [filed, lower, missing] at answered
  cases answered

end Souq.Catalog.Products
