import ViewSchema.Fetch.Request
import ViewSchema.Proofs.Json.MergedPaths
import ViewSchema.Proofs.Url.Form

/-!
# What a query says

The query of a call is flattened, written as a form and put behind the query that the address has
already.  Whoever reads the form finds the pairs of the address, and behind them one pair for each
scalar of the query: its name is the path to the scalar, with dots between the names, and the
scalars of an array all have the name of the array.

Main results:

- Theorem `Json.mem_leaves_iff`: the leaves of a value are what its paths lead to beside objects.
- Theorem `Query.ofFields_eq`: the fields of a query are those of its leaves.
- Theorem `decode_resolveUrl`: what is read from the query of the address of a call.
-/

namespace ViewSchema

/-! ## Leaves -/

namespace Json

mutual

/-- The values in objects that are not objects themselves, in order, each with the names that lead
to it. -/
def leaves : Json → List (List String × Json)
  | object fields => leavesIn fields
  | value => [([], value)]

def leavesIn : List (String × Json) → List (List String × Json)
  | [] => []
  | (name, value) :: rest =>
    (leaves value).map (fun leaf => (name :: leaf.1, leaf.2)) ++ leavesIn rest

end

theorem leaves_of_not_object {value : Json} (h : value.isObject = false) :
    value.leaves = [([], value)] := by
  cases value with
  | object fields => cases h
  | _ => rfl

theorem mem_leavesIn_iff {fields : List (String × Json)} {path : List String} {leaf : Json} :
    (path, leaf) ∈ leavesIn fields ↔ ∃ name value rest,
      (name, value) ∈ fields ∧ path = name :: rest ∧ (rest, leaf) ∈ value.leaves := by
  induction fields with
  | nil => simp [leavesIn]
  | cons field others ih =>
    rw [leavesIn, List.mem_append, ih, List.mem_map]
    constructor
    · rintro (⟨⟨rest, _⟩, hleaf, heq⟩ | ⟨name, value, rest, hmem, hpath⟩)
      · cases heq
        exact ⟨_, _, rest, List.mem_cons_self, rfl, hleaf⟩
      · exact ⟨name, value, rest, List.mem_cons_of_mem _ hmem, hpath⟩
    · rintro ⟨name, value, rest, hmem, rfl, hleaf⟩
      rcases List.mem_cons.1 hmem with rfl | hother
      · exact .inl ⟨_, hleaf, rfl⟩
      · exact .inr ⟨name, value, rest, hother, rfl, hleaf⟩

/-- Leaves are what paths lead to, objects apart. -/
theorem mem_leaves_iff {value leaf : Json} (h : value.Regular) (path : List String) :
    (path, leaf) ∈ value.leaves ↔ value.at? path = some leaf ∧ leaf.isObject = false := by
  induction path generalizing value with
  | nil =>
    rw [at?_nil]
    cases hobject : value.isObject with
    | true =>
      obtain ⟨fields, rfl⟩ := exists_fields hobject
      rw [leaves, mem_leavesIn_iff]
      constructor
      · rintro ⟨_, _, _, -, ⟨⟩, -⟩
      · rintro ⟨⟨⟩, hleaf⟩
        rw [hleaf] at hobject
        cases hobject
    | false =>
      rw [leaves_of_not_object hobject, List.mem_singleton]
      constructor
      · rintro ⟨⟩
        exact ⟨rfl, hobject⟩
      · rintro ⟨⟨⟩, -⟩
        rfl
  | cons name rest ih =>
    rw [at?_cons, Option.bind_eq_some_iff]
    cases hobject : value.isObject with
    | true =>
      obtain ⟨fields, rfl⟩ := exists_fields hobject
      rw [leaves, mem_leavesIn_iff, member?_object]
      constructor
      · rintro ⟨_, member, _, hmem, ⟨⟩, hleaf⟩
        have hlookup := (Fields.lookup_eq_some_iff h.distinct).2 hmem
        obtain ⟨hat, hnot⟩ := (ih (h.lookup hlookup)).1 hleaf
        exact ⟨⟨member, hlookup, hat⟩, hnot⟩
      · rintro ⟨⟨member, hlookup, hat⟩, hnot⟩
        have hleaf := (ih (h.lookup hlookup)).2 ⟨hat, hnot⟩
        exact ⟨name, member, rest, Fields.mem_of_lookup hlookup, rfl, hleaf⟩
    | false =>
      rw [leaves_of_not_object hobject, List.mem_singleton, member?_of_not_object hobject]
      simp

end Json

/-! ## The fields of a query -/

namespace Query

/-- The texts of a value: of itself if it is a scalar, of the scalars in it if it is an array. -/
def texts : Json → List String
  | .array items => items.filterMap scalarText?
  | value => (scalarText? value).toList

/-- The fields of a leaf, all with the name of its path. -/
def ofLeaf (leaf : List String × Json) : List (String × String) :=
  (texts leaf.2).map (String.intercalate "." leaf.1, ·)

/-- Fields are named alike if the first two names of their path are joined already. -/
theorem ofLeaf_joined (first second : String) (leaf : List String × Json) :
    ofLeaf ((first ++ "." ++ second) :: leaf.1, leaf.2) =
      ofLeaf (first :: second :: leaf.1, leaf.2) := by
  rw [ofLeaf, ofLeaf, String.intercalate_cons_append, String.intercalate_cons_cons]

theorem ofValue_of_not_object {value : Json} (h : value.isObject = false) (name : String) :
    ofValue name value = (texts value).map (name, ·) := by
  cases value with
  | object fields => cases h
  | array items => rw [ofValue, texts, List.map_filterMap]
  | _ => simp [ofValue, texts, scalarText?]

mutual

/-- A value gives the fields of its leaves, below its own name. -/
theorem ofValue_eq (name : String) (value : Json) :
    ofValue name value = value.leaves.flatMap fun leaf => ofLeaf (name :: leaf.1, leaf.2) := by
  cases hobject : value.isObject with
  | true =>
    obtain ⟨fields, rfl⟩ := Json.exists_fields hobject
    exact ofMembers_eq name fields
  | false =>
    rw [ofValue_of_not_object hobject, Json.leaves_of_not_object hobject, List.flatMap_singleton,
      ofLeaf, String.intercalate_singleton]

/-- So do the members of an object. -/
theorem ofMembers_eq (name : String) (fields : List (String × Json)) :
    ofMembers name fields =
      (Json.leavesIn fields).flatMap fun leaf => ofLeaf (name :: leaf.1, leaf.2) := by
  cases fields with
  | nil => rfl
  | cons field rest =>
    obtain ⟨member, value⟩ := field
    rw [ofMembers, Json.leavesIn, List.flatMap_append, List.flatMap_map, ofMembers_eq name rest,
      ofValue_eq (name ++ "." ++ member) value]
    simp only [ofLeaf_joined]

end

/-- The fields of a query are those of its leaves. -/
theorem ofFields_eq (fields : List (String × Json)) :
    ofFields fields = (Json.object fields).leaves.flatMap ofLeaf := by
  rw [Json.leaves]
  induction fields with
  | nil => rfl
  | cons field rest ih =>
    rw [ofFields, List.flatMap_cons, ← ofFields, ih, ofValue_eq, Json.leavesIn, List.flatMap_append,
      List.flatMap_map]

end Query

/-! ## The address of a call -/

/-- An empty query is read like none. -/
theorem UrlForm.flatMap_decode_filter (query : Option String) :
    (query.toList.filter (· ≠ "")).flatMap decode = query.toList.flatMap decode := by
  cases query with
  | none => rfl
  | some text =>
    by_cases hempty : text = ""
    · rw [hempty]
      rfl
    · simp [hempty]

/-- The fields that are added to a URL are read behind the pairs of its query. -/
theorem Url.decode_addQuery (url : Url) {fields : List (String × Json)} (h : fields ≠ []) :
    ∃ text, url.addQuery fields = { url with query := some text } ∧
      UrlForm.decode text = url.query.toList.flatMap UrlForm.decode ++ Query.ofFields fields := by
  have hfields : fields.isEmpty = false := List.isEmpty_eq_false_iff.2 h
  refine ⟨_, by rw [addQuery, hfields]; rfl, ?_⟩
  rw [UrlForm.decode_intercalate, UrlForm.flatMap_decode_filter]

/-- A query that is not empty is put behind the one of the address of a call, and changes nothing
else of it.  What is then read from the form are the pairs of the address and behind them the
fields of the leaves of the query.  A call that has no address without the query has none with
it. -/
theorem decode_resolveUrl (base : Option Url) (url : String) {query : List (String × Json)}
    (hquery : query ≠ []) :
    match resolveUrl base url [] with
    | .ok address => ∃ text, resolveUrl base url query = .ok { address with query := some text } ∧
        UrlForm.decode text = address.query.toList.flatMap UrlForm.decode ++
          (Json.object query).leaves.flatMap Query.ofLeaf
    | .error e => resolveUrl base url query = .error e := by
  unfold resolveUrl
  cases absoluteUrl base url with
  | error e => rfl
  | ok address =>
    obtain ⟨text, hadded, hdecode⟩ := address.decode_addQuery hquery
    refine ⟨text, ?_, ?_⟩
    · rw [Except.map, hadded]
      rfl
    · rw [hdecode, Query.ofFields_eq]
      rfl

/-- A base with a path. -/
def apiBase : Url :=
  ⟨"https", "", "", some (.domain "api.test"), none, .segments ["v1", ""], none, none⟩

/-- Values of every kind, with characters that forms reserve. -/
def searchQuery : List (String × Json) :=
  [("page", .int 2), ("tags", .array [.string "a&b", .array [.int 1], .null, .string "é"]),
    ("filter", .object [("q", .string "x y"), ("by=", .object [("name", .bool true)])]),
    ("skip", .null)]

theorem decode_resolveUrl_users : searchQuery ≠ [] ∧
    ∃ address text, resolveUrl (some apiBase) "/users?team=a%26b#top" searchQuery = .ok address ∧
      address.query = some text ∧ address.fragment = some "top" ∧
      UrlForm.decode text =
        [("team", "a&b"), ("page", "2"), ("tags", "a&b"), ("tags", "é"), ("filter.q", "x y"),
          ("filter.by=.name", "true")] := by
  have hquery : searchQuery ≠ [] := by simp [searchQuery]
  have hresolve := decode_resolveUrl (some apiBase) "/users?team=a%26b#top" hquery
  have hbare : resolveUrl (some apiBase) "/users?team=a%26b#top" [] =
      .ok ⟨"https", "", "", some (.domain "api.test"), none, .segments ["v1", "users"],
        some "team=a%26b", some "top"⟩ := rfl
  rw [hbare] at hresolve
  obtain ⟨text, haddress, hdecode⟩ := hresolve
  refine ⟨hquery, _, text, haddress, rfl, rfl, ?_⟩
  rw [hdecode]
  decide +kernel

end ViewSchema
