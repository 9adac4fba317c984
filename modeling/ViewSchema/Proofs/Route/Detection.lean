import ViewSchema.Proofs.Route.RoundTrip
import ViewSchema.Route.Table

/-!
# Detecting other routes

A table is made again whenever it is given routes whose written form has another fingerprint, and
says so.  The fingerprint of a table is always that of the configurations it was given last.  What
is read is known from its text (`RouteConfig.listToJson_text_inj`), so keeping a table when the
fingerprint stays the same never keeps the routes of other configurations, unless fingerprints
collide.

Main results:

- Theorem `RouteTable.answers_eq`: each answer compares the texts of two lists in turn.
- Theorem `RouteTable.foldl_setRoutes_ofConfigs`: a table that was given lists in turn is made of
  the last one.
- Theorem `RouteTable.detection_exact`: reading and writing, answers and routes.
-/

namespace ViewSchema

namespace RouteConfig

/-- Configurations that are read from values whose numbers are as they are built. -/
def Deserialized (configs : List RouteConfig) : Prop :=
  ∀ c ∈ configs, ∃ v : Json, v.AllNumbers Number.Canonical ∧ ofSetting? (.ofJson v) = some c

/-- The text of the written form. -/
def text (configs : List RouteConfig) : String := (listToJson configs).text

/-- Among some lists, only those with the same text have the same fingerprint. -/
def CollisionFree (lists : List (List RouteConfig)) : Prop :=
  ∀ a ∈ lists, ∀ b ∈ lists, fingerprint a = fingerprint b → text a = text b

theorem CollisionFree.mono {lists all : List (List RouteConfig)} (h : CollisionFree all)
    (hsub : ∀ a ∈ lists, a ∈ all) : CollisionFree lists :=
  fun a ha b hb => h a (hsub a ha) b (hsub b hb)

theorem allReadable_iff {P : Number → Prop} {configs : List RouteConfig} :
    AllReadable P configs ↔ ∀ c ∈ configs, c.Readable P := by
  induction configs with
  | nil => simp [AllReadable]
  | cons c cs ih => simp [AllReadable, ih]

theorem Deserialized.allReadable {configs : List RouteConfig} (h : Deserialized configs) :
    AllReadable Number.Canonical configs :=
  allReadable_iff.2 fun c hc => by
    obtain ⟨v, hnumbers, hread⟩ := h c hc
    exact readable_ofSetting? hnumbers hread

/-- Without collisions, the fingerprint says which configurations were read. -/
theorem eq_of_fingerprint {lists : List (List RouteConfig)} (hfree : CollisionFree lists)
    {a b : List RouteConfig} (ha : a ∈ lists) (hb : b ∈ lists) (hreadA : Deserialized a)
    (hreadB : Deserialized b) (h : fingerprint a = fingerprint b) : a = b :=
  listToJson_text_inj Number.toldApart_canonical hreadA.allReadable hreadB.allReadable
    (hfree a ha b hb h)

end RouteConfig

namespace RouteTable

open RouteConfig (text Deserialized CollisionFree)

variable {first before next : List RouteConfig} {lists : List (List RouteConfig)}

/-- The answers to setting one list of routes after the other. -/
def answers (table : RouteTable) : List (List RouteConfig) → List Bool
  | [] => []
  | next :: rest => table.changes next :: answers (table.setRoutes next) rest

/-! ## One list -/

/-- The fingerprint is that of the list that was given last. -/
theorem fingerprint_setRoutes (table : RouteTable) (next : List RouteConfig) :
    (table.setRoutes next).fingerprint = RouteConfig.fingerprint next := by
  rw [setRoutes, replace]
  split
  · next h => exact h.symm
  · rfl

/-- The answer compares texts. -/
theorem changes_eq {table : RouteTable}
    (htable : table.fingerprint = RouteConfig.fingerprint before)
    (hbefore : before ∈ lists) (hnext : next ∈ lists) (hfree : CollisionFree lists) :
    table.changes next = decide (text next ≠ text before) := by
  have hsame : RouteConfig.fingerprint next = RouteConfig.fingerprint before ↔
      text next = text before :=
    ⟨hfree next hnext before hbefore, fun htext => congrArg Blake3.ofText htext⟩
  rw [changes, replace, htable]
  split
  · next heq => exact (decide_eq_false (not_not_intro (hsame.1 heq))).symm
  · next hne => exact (decide_eq_true (mt hsame.2 hne)).symm

/-- A table is made of the list it is given, also if it is kept. -/
theorem setRoutes_ofConfigs (hbefore : before ∈ lists) (hnext : next ∈ lists)
    (hfree : CollisionFree lists) (hreadBefore : Deserialized before)
    (hreadNext : Deserialized next) : (ofConfigs before).setRoutes next = ofConfigs next := by
  rw [setRoutes, replace]
  split
  · next h =>
    rw [RouteConfig.eq_of_fingerprint hfree hnext hbefore hreadNext hreadBefore h]
  · rfl

/-! ## One list after the other -/

/-- Each answer compares the texts of two lists in turn. -/
theorem answers_eq {table : RouteTable} (htable : table.fingerprint = RouteConfig.fingerprint first)
    (hfree : CollisionFree (first :: lists)) :
    table.answers lists =
      List.zipWith (fun before next => decide (text next ≠ text before))
        (first :: lists) lists := by
  induction lists generalizing first table with
  | nil => rfl
  | cons next rest ih =>
    have hanswer := changes_eq htable List.mem_cons_self
      (List.mem_cons_of_mem _ List.mem_cons_self) hfree
    rw [answers, List.zipWith_cons_cons, hanswer, ih (fingerprint_setRoutes table next)
      (hfree.mono fun a ha => List.mem_cons_of_mem _ ha)]

/-- A table that was given lists in turn is made of the last one. -/
theorem foldl_setRoutes_ofConfigs (hfirst : Deserialized first)
    (hlists : ∀ configs ∈ lists, Deserialized configs) (hfree : CollisionFree (first :: lists)) :
    lists.foldl setRoutes (ofConfigs first) = ofConfigs (lists.getLastD first) := by
  induction lists generalizing first with
  | nil => rfl
  | cons next rest ih =>
    obtain ⟨hnext, hrest⟩ := List.forall_mem_cons.1 hlists
    rw [List.foldl_cons, setRoutes_ofConfigs List.mem_cons_self
      (List.mem_cons_of_mem _ List.mem_cons_self) hfree hfirst hnext,
      ih hnext hrest (hfree.mono fun a ha => List.mem_cons_of_mem _ ha),
      List.getLastD_cons]

/-- Change detection is exact: a configuration that is read from any value is what its written form
is read as; and of a table that is made of a list and then given others, every answer says whether
a list has another text than the one before it, and the routes are those of the last list, where
the lists were read. -/
theorem detection_exact :
    (∀ (v : Json) (c : RouteConfig), RouteConfig.ofSetting? (.ofJson v) = some c →
      RouteConfig.ofSetting? (.ofJson c.toJson) = some c) ∧
    ∀ (first : List RouteConfig) (lists : List (List RouteConfig)),
      CollisionFree (first :: lists) →
        (ofConfigs first).answers lists =
            List.zipWith (fun before next => decide (text next ≠ text before))
              (first :: lists) lists ∧
          ((∀ configs ∈ first :: lists, Deserialized configs) →
            (lists.foldl setRoutes (ofConfigs first)).routes =
              Route.flatten (lists.getLastD first)) := by
  refine ⟨fun v c hread => RouteConfig.ofSetting?_toJson_of_read hread,
    fun first lists hfree => ⟨answers_eq rfl hfree, fun hread => ?_⟩⟩
  obtain ⟨hfirst, hlists⟩ := List.forall_mem_cons.1 hread
  rw [foldl_setRoutes_ofConfigs hfirst hlists hfree]
  rfl

/-- A page with a page below it and a width of its own. -/
def docs : RouteConfig :=
  ⟨"/docs", none, some "Docs", true, none, [⟨":page", none, none, true, none, [], []⟩],
    [("width", .number (.double ⟨false, 6755399441055744, -52⟩))]⟩

/-- What it is read from. -/
def docsValue : Json :=
  .object [("width", .number (.double ⟨false, 6755399441055744, -52⟩)), ("path", .string "/docs"),
    ("name", .null), ("component", .string "Docs"),
    ("routes", .array [.object [("path", .string ":page"), ("active", .bool true)]])]

theorem detection_exact_docs :
    RouteConfig.ofSetting? (.ofJson docsValue) = some docs ∧
      RouteConfig.ofSetting? (.ofJson docs.toJson) = some docs ∧
      CollisionFree [[docs], [docs], [], [docs]] ∧
      (∀ configs ∈ [[docs], [docs], [], [docs]], Deserialized configs) ∧
      (ofConfigs [docs]).answers [[docs], [], [docs]] = [false, true, true] ∧
      ([[docs], [], [docs]].foldl setRoutes (ofConfigs [docs])).routes = Route.flatten [docs] := by
  have hread : RouteConfig.ofSetting? (.ofJson docsValue) = some docs := rfl
  have hfree : CollisionFree [[docs], [docs], [], [docs]] := by
    unfold CollisionFree
    decide +kernel
  have hwidth : (Double.mk false 6755399441055744 (-52)).Canonical :=
    ⟨by decide, by decide, by decide, by decide⟩
  have hdocs : Deserialized [docs] := by
    refine List.forall_mem_singleton.2 ⟨docsValue, ?_, hread⟩
    simpa [docsValue, Json.AllNumbers, Json.AllNumbersItems, Json.AllNumbersFields,
      Number.Canonical] using hwidth
  have hall : ∀ configs ∈ [[docs], [docs], [], [docs]], Deserialized configs := by
    simpa [Deserialized] using hdocs
  obtain ⟨hroundTrip, hruns⟩ := detection_exact
  obtain ⟨hanswers, hroutes⟩ := hruns [docs] [[docs], [], [docs]] hfree
  exact ⟨hread, hroundTrip docsValue docs hread, hfree, hall, hanswers.trans (by decide +kernel),
    hroutes hall⟩

end RouteTable

end ViewSchema
