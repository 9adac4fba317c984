import Mathlib.Data.List.Nodup
import ViewSchema.Diff.Report
import ViewSchema.Proofs.Diff.Agreement
import ViewSchema.Proofs.Diff.Nodes

/-!
# Empty diffs

An empty diff means that every snapshot of the old schema is found among the new ones.  With
distinct keys in the same order the snapshots are the same, and so is the HTML of the schemas,
if they agree in what snapshots leave out.

Main results:

- Theorem `SchemaDiff.mem_of_isEmpty`: an empty diff finds the old snapshots among the new ones.
- Theorem `SchemaDiff.eq_of_isEmpty`: with the same distinct keys, the snapshots are the same.
- Theorem `Compiler.render_eq_of_isEmpty`: an empty diff of schemas that agree means equal HTML.
-/

namespace ViewSchema

namespace SchemaDiff

variable {context : Nat} {before after : List Snapshot}

/-- What is found under a key has that key. -/
theorem mem_of_find? {snapshots : List Snapshot} {key : String} {found : Snapshot}
    (h : find? snapshots key = some found) : found ∈ snapshots ∧ found.key = key := by
  have hmem := List.mem_of_find?_eq_some h
  have hkey := List.find?_some h
  exact ⟨List.mem_reverse.1 hmem, by simpa using hkey⟩

/-- An empty diff finds every old snapshot among the new ones. -/
theorem mem_of_isEmpty (h : (ofSnapshots context before after).isEmpty = true) {old : Snapshot}
    (hold : old ∈ before) : old ∈ after := by
  have hchanges := List.isEmpty_iff.1 h
  have hkept := List.filterMap_eq_nil_iff.1 (List.append_eq_nil_iff.1 hchanges).1 old hold
  cases hfind : find? after old.key with
  | none => simp [hfind] at hkept
  | some new =>
    obtain ⟨hnew, hkey⟩ := mem_of_find? hfind
    have hlines : old.lines = new.lines := by
      by_contra hne
      simp [hfind, compare?, hne] at hkept
    have heq : old = new := by
      cases old
      cases new
      simp_all
    rwa [heq]

/-- With the same distinct keys, an empty diff means equal snapshots. -/
theorem eq_of_isEmpty (hkeys : before.map Snapshot.key = after.map Snapshot.key)
    (hdistinct : (before.map Snapshot.key).Nodup)
    (h : (ofSnapshots context before after).isEmpty = true) : before = after := by
  have hlength : before.length = after.length := by
    simpa using congrArg List.length hkeys
  refine List.ext_getElem hlength fun i hi hi' => ?_
  have hmem : before[i] ∈ after := mem_of_isEmpty h (List.getElem_mem hi)
  have hkey : before[i].key = after[i].key := by
    have hmapped := List.getElem_of_eq hkeys (i := i) (by simpa using hi)
    simpa using hmapped
  exact List.inj_on_of_nodup_map (hkeys ▸ hdistinct) hmem (List.getElem_mem hi') hkey

end SchemaDiff

namespace Compiler

/-- Schemas that agree in what snapshots leave out, in particular in where texts stand, have the
same HTML when their diff is empty. They are any values that a text can hold: whatever is read
from one is regular (`Json.regular_of_parse?`), and its numbers are canonical
(`Json.allNumbers_of_parse?`). -/
theorem render_eq_of_isEmpty (c : Compiler) (hhook : ∀ name fields, c.mutate name fields = none)
    {old new : Json} (hold : old.Regular) (hnew : new.Regular)
    (holdNumbers : old.AllNumbers Number.Canonical) (hnewNumbers : new.AllNumbers Number.Canonical)
    (hagree : Essence.AgreeAll (Essence.ofSchema c old) (Essence.ofSchema c new))
    (hdistinct : ((Snapshot.ofSchema old).map Snapshot.key).Nodup) {context : Nat}
    (h : (SchemaDiff.ofSchemas context old new).isEmpty = true) (ctx : RenderContext) :
    Html.render ctx (c.compile old) = Html.render ctx (c.compile new) := by
  have hkeys := Essence.keys_eq hagree
  have hsnapshots := SchemaDiff.eq_of_isEmpty hkeys hdistinct h
  have hessence := Essence.eq_of_snapshots Number.toldApart_canonical hagree holdNumbers
    hnewNumbers hsnapshots
  exact render_compile_eq hhook hold hnew hessence ctx

/-- A page whose sections come in a map. -/
def mappedPage : Json :=
  .object [("name", .string "page"), ("content", .object [
    ("first", .object [("name", .string "hero"),
      ("size", .number (.double ⟨false, 6755399441055744, -52⟩)), ("content", .string "Welcome")]),
    ("facts", .object [("content", .array [.string "new", .int 24])])])]

/-- The same page with its sections in lists, among values that stand for nothing. -/
def listedPage : Json :=
  .object [("content", .array [.string "", .object [("name", .string "hero"),
      ("content", .string "Welcome"), ("size", .number (.double ⟨false, 6755399441055744, -52⟩))],
    .array [.object [("facts", .object [("content", .array [.string "new", .int 24, .null])])]]]),
    ("name", .string "page")]

/-- Both ways to write the page give the same HTML. -/
theorem render_mappedPage_eq :
    (∀ name fields, plain.mutate name fields = none) ∧ mappedPage.Regular ∧ listedPage.Regular ∧
      mappedPage.AllNumbers Number.Canonical ∧ listedPage.AllNumbers Number.Canonical ∧
      Essence.AgreeAll (Essence.ofSchema plain mappedPage) (Essence.ofSchema plain listedPage) ∧
      ((Snapshot.ofSchema mappedPage).map Snapshot.key).Nodup ∧
      (SchemaDiff.ofSchemas 3 mappedPage listedPage).isEmpty = true ∧
      Html.render ⟨.standard, none⟩ (plain.compile mappedPage) =
        Html.render ⟨.standard, none⟩ (plain.compile listedPage) := by
  have hmapped : mappedPage.Regular := by
    simp [mappedPage, Json.Regular, Json.RegularFields, Json.RegularItems, Fields.Distinct,
      Json.int]
  have hlisted : listedPage.Regular := by
    simp [listedPage, Json.Regular, Json.RegularFields, Json.RegularItems, Fields.Distinct,
      Json.int]
  have hsize : (Double.mk false 6755399441055744 (-52)).Canonical :=
    ⟨by decide, by decide, by decide, by decide⟩
  have hmappedNumbers : mappedPage.AllNumbers Number.Canonical := by
    simpa [mappedPage, Json.AllNumbers, Json.AllNumbersItems, Json.AllNumbersFields, Json.int,
      Number.Canonical] using hsize
  have hlistedNumbers : listedPage.AllNumbers Number.Canonical := by
    simpa [listedPage, Json.AllNumbers, Json.AllNumbersItems, Json.AllNumbersFields, Json.int,
      Number.Canonical] using hsize
  have hagree : Essence.AgreeAll (Essence.ofSchema plain mappedPage)
      (Essence.ofSchema plain listedPage) := by
    decide +kernel
  have hdistinct : ((Snapshot.ofSchema mappedPage).map Snapshot.key).Nodup := by
    decide +kernel
  have hempty : (SchemaDiff.ofSchemas 3 mappedPage listedPage).isEmpty = true := by
    decide +kernel
  exact ⟨fun _ _ => rfl, hmapped, hlisted, hmappedNumbers, hlistedNumbers, hagree, hdistinct,
    hempty, render_eq_of_isEmpty plain (fun _ _ => rfl) hmapped hlisted hmappedNumbers
      hlistedNumbers hagree hdistinct hempty ⟨.standard, none⟩⟩

/-- A diff is empty between greetings outside of sections, whose HTML differs. -/
theorem render_ne_of_greetings :
    (SchemaDiff.ofSchemas 3 (.string "Hello") (.string "Bye")).isEmpty = true ∧
      Html.render ⟨.standard, none⟩ (plain.compile (.string "Hello")) ≠
        Html.render ⟨.standard, none⟩ (plain.compile (.string "Bye")) := by
  decide +kernel

end Compiler

end ViewSchema
