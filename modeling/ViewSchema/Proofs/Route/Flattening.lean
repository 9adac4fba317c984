import Mathlib.Data.List.TakeWhile
import ViewSchema.Proofs.Json.Fields
import ViewSchema.Proofs.Text.Segments
import ViewSchema.Route.Table

/-!
# Flattening routes

A route stands somewhere among nested ones, below the routes above it.  It counts if it is active
and all of these are, and its full path is that of the route right above it and its own segments
behind, or its own segments alone.  The list of routes holds what counts, each route before those
below it; of a name it keeps the first place and the last content.

Main results:

- Theorem `Route.listings_eq`: the routes that are listed are those that count, in their order.
- Theorem `Route.joinPath_pathAbove`: full paths are made of the segments of a route and those
  above.
- Theorem `Route.flatten_eq`: which routes a table has, in which order, with which paths.
-/

namespace ViewSchema

namespace Route

/-! ## Places of routes -/

/-- A route with those above it, the nearest first. -/
structure Place where
  config : RouteConfig
  above : List RouteConfig

namespace Place

/-- A place counts if its route is active and all above it are. -/
def isReached (place : Place) : Bool := (place.config :: place.above).all RouteConfig.active

end Place

/-- The segments of the full path of a route: those of the route right above it and its own, or its
own alone if its path begins with a slash. -/
def fullSegments (config : RouteConfig) : List RouteConfig → List String
  | [] => pathSegments config.path
  | parent :: above =>
    if config.path.startsWith "/" then pathSegments config.path
    else fullSegments parent above ++ pathSegments config.path

/-- The full path of a route. -/
def fullPath (config : RouteConfig) (above : List RouteConfig) : String :=
  "/" ++ String.intercalate "/" (fullSegments config above)

namespace Place

/-- The full path of the route at a place. -/
def path (place : Place) : String := fullPath place.config place.above

/-- The name of the route at a place: its own, else its full path. -/
def name (place : Place) : String := place.config.name.getD place.path

/-- The route at a place. -/
def route (place : Place) : Route := ofConfig place.config place.path

end Place

mutual

/-- The places of a route and of those below it, active or not, each before those below it. -/
def placesOf (above : List RouteConfig) : RouteConfig → List Place
  | ⟨path, name, component, active, view, routes, extra⟩ =>
    let config := ⟨path, name, component, active, view, routes, extra⟩
    ⟨config, above⟩ :: placesIn (config :: above) routes

def placesIn (above : List RouteConfig) : List RouteConfig → List Place
  | [] => []
  | c :: cs => placesOf above c ++ placesIn above cs

end

/-- A route stands in front of those below it. -/
theorem placesOf_eq (above : List RouteConfig) (config : RouteConfig) :
    placesOf above config = ⟨config, above⟩ :: placesIn (config :: above) config.routes := by
  cases config
  rfl

/-- The routes that count, in order. -/
def reached (configs : List RouteConfig) : List Place :=
  (placesIn [] configs).filter Place.isReached

/-! ## Full paths -/

/-- Paths that begin with a slash and, unless they are that slash, have no empty segment and no
slash at the end. -/
def Normalized (path : String) : Prop :=
  path.toList.head? = some '/' ∧
    (path = "/" ∨ path.toList.getLast? ≠ some '/' ∧
      ∀ piece ∈ splitAtEach (· == '/') (path.toList.drop 1), piece ≠ [])

/-- The segments of a full path are segments. -/
theorem isSegment_of_mem_fullSegments {segment : String} {config : RouteConfig}
    {above : List RouteConfig} (h : segment ∈ fullSegments config above) : IsSegment segment := by
  induction above generalizing config with
  | nil => exact isSegment_of_mem_pathSegments h
  | cons parent above ih =>
    rw [fullSegments] at h
    split at h
    · exact isSegment_of_mem_pathSegments h
    · rcases List.mem_append.1 h with hparent | hown
      · exact ih hparent
      · exact isSegment_of_mem_pathSegments hown

/-- A slash in front of a text is its first character. -/
theorem toList_slash_append (text : String) : ("/" ++ text).toList = '/' :: text.toList := by
  simp [String.toList_append]

/-- Joined segments behind a slash are a normalized path. -/
theorem normalized_join {segments : List String} (h : ∀ s ∈ segments, IsSegment s) :
    Normalized ("/" ++ String.intercalate "/" segments) := by
  refine ⟨by rw [toList_slash_append]; rfl, ?_⟩
  by_cases hne : segments = []
  · subst hne
    exact .inl rfl
  · have hpieces : ∀ piece ∈ splitAtEach (· == '/') (String.intercalate "/" segments).toList,
        piece ≠ [] := by
      rw [splitAtEach_intercalate hne fun s hs => (h s hs).2]
      intro piece hpiece
      obtain ⟨segment, hmem, rfl⟩ := List.mem_map.1 hpiece
      exact (h segment hmem).toList_ne_nil
    refine .inr ⟨fun hlast => ?_, by simpa [toList_slash_append] using hpieces⟩
    -- Behind a slash at the end there would be an empty piece.
    rw [toList_slash_append] at hlast
    rcases List.eq_nil_or_concat (String.intercalate "/" segments).toList with
      hnil | ⟨front, c, hcs⟩
    · exact hpieces [] (by rw [hnil]; exact List.mem_singleton.2 rfl) rfl
    · rw [List.concat_eq_append] at hcs
      have hc : c = '/' := by simpa [hcs, List.getLast?_cons] using hlast
      refine hpieces [] ?_ rfl
      rw [hcs, hc, splitAtEach_append (by decide)]
      exact List.mem_append_right _ (List.mem_singleton.2 rfl)

/-- Segments that are joined behind a slash are read back. -/
theorem pathSegments_join {segments : List String} (h : ∀ s ∈ segments, IsSegment s) :
    pathSegments ("/" ++ String.intercalate "/" segments) = segments := by
  rw [pathSegments_eq, toList_slash_append, segmentsIn_slash, ← pathSegments_eq,
    pathSegments_intercalate h]

/-- Slashes at the end of a path do not count. -/
theorem pathSegments_trimBack (path : String) :
    pathSegments (trimBack (· == '/') path) = pathSegments path := by
  have hsplit : path.toList = (path.toList.reverse.dropWhile (· == '/')).reverse ++
      (path.toList.reverse.takeWhile (· == '/')).reverse := by
    rw [← List.reverse_append, List.takeWhile_append_dropWhile, List.reverse_reverse]
  have hslashes : ∀ c ∈ (path.toList.reverse.takeWhile (· == '/')).reverse, c = '/' := by
    intro c hc
    simpa using List.mem_takeWhile_imp (List.mem_reverse.1 hc)
  rw [pathSegments_eq, pathSegments_eq, trimBack, String.toList_ofList]
  conv_rhs => rw [hsplit]
  exact (segmentsIn_append_slashes _ hslashes).symm

/-- The full path of what is right above, nothing for outermost routes. -/
def pathAbove : List RouteConfig → String
  | [] => ""
  | parent :: above => fullPath parent above

/-- Full paths are made of the segments of a route and those above it. -/
theorem joinPath_pathAbove (config : RouteConfig) (above : List RouteConfig) :
    joinPath (pathAbove above) config.path = fullPath config above := by
  cases above with
  | nil => simp [joinPath, pathAbove, fullPath, fullSegments, normalize]
  | cons parent above =>
    have hparent : pathSegments (fullPath parent above) = fullSegments parent above :=
      pathSegments_join fun _ hmem => isSegment_of_mem_fullSegments hmem
    have hnonempty : (fullPath parent above).isEmpty = false := by simp [fullPath]
    have hown : joinPath (fullPath parent above) config.path =
        if config.path.startsWith "/" then normalize config.path
        else normalize (trimBack (· == '/') (fullPath parent above) ++ "/" ++ config.path) := by
      rw [joinPath, hnonempty, Bool.or_false]
    have hfull : fullPath config (parent :: above) =
        "/" ++ String.intercalate "/" (if config.path.startsWith "/" then pathSegments config.path
          else fullSegments parent above ++ pathSegments config.path) := by
      rw [fullPath, fullSegments]
    rw [pathAbove, hown, hfull]
    split
    · rfl
    · rw [normalize, pathSegments_append_slash, pathSegments_trimBack, hparent]

/-! ## Listing -/

/-- A route is listed in front of those below it if it is active; else neither it nor they are. -/
theorem listing_eq_ite (parent : String) (config : RouteConfig) :
    listing parent config = if config.active then
      ofConfig config (joinPath parent config.path) ::
        listings (joinPath parent config.path) config.routes else [] := by
  cases config
  rfl

mutual

/-- Below a route that is not active, none counts. -/
theorem filter_placesOf_eq_nil {above : List RouteConfig}
    (h : above.all RouteConfig.active = false) :
    ∀ config : RouteConfig, (placesOf above config).filter Place.isReached = []
  | ⟨path, name, component, active, view, routes, extra⟩ => by
    have hbelow : ∀ config : RouteConfig,
        (config :: above).all RouteConfig.active = false := fun config => by simp [h]
    rw [placesOf_eq, List.filter_cons_of_neg (by simp [Place.isReached, hbelow])]
    exact filter_placesIn_eq_nil (hbelow _) routes

/-- Among the routes below one that is not active, none counts. -/
theorem filter_placesIn_eq_nil {above : List RouteConfig}
    (h : above.all RouteConfig.active = false) :
    ∀ configs : List RouteConfig, (placesIn above configs).filter Place.isReached = []
  | [] => rfl
  | c :: cs => by
    rw [placesIn, List.filter_append, filter_placesOf_eq_nil h c, filter_placesIn_eq_nil h cs]
    rfl

end

mutual

/-- The listing of one route: what counts of it and of those below it. -/
theorem listing_eq {above : List RouteConfig} (h : above.all RouteConfig.active = true) :
    ∀ config : RouteConfig, listing (pathAbove above) config =
      ((placesOf above config).filter Place.isReached).map Place.route
  | ⟨path, name, component, active, view, routes, extra⟩ => by
    rw [listing_eq_ite, placesOf_eq]
    cases active with
    | true =>
      have hbelow : (RouteConfig.mk path name component true view routes extra :: above).all
          RouteConfig.active = true := by simp [h]
      rw [if_pos rfl, List.filter_cons_of_pos (by simpa [Place.isReached] using h), List.map_cons,
        joinPath_pathAbove]
      exact congrArg _ (listings_eq hbelow routes)
    | false =>
      have hbelow : (RouteConfig.mk path name component false view routes extra :: above).all
          RouteConfig.active = false := rfl
      rw [if_neg (by simp), List.filter_cons_of_neg (by simp [Place.isReached]),
        filter_placesIn_eq_nil hbelow routes]
      rfl

/-- The routes that are listed are those that count, in their order. -/
theorem listings_eq {above : List RouteConfig} (h : above.all RouteConfig.active = true) :
    ∀ configs : List RouteConfig, listings (pathAbove above) configs =
      ((placesIn above configs).filter Place.isReached).map Place.route
  | [] => rfl
  | c :: cs => by
    rw [listings, placesIn, List.filter_append, List.map_append, listing_eq h c, listings_eq h cs]

end

/-! ## The list of routes -/

/-- The last route with a name stands for it. -/
theorem mem_byName_iff {routes : List Route} {name : String} {route : Route} :
    (name, route) ∈ byName routes ↔ route.name = name ∧ ∃ before after,
      routes = before ++ route :: after ∧ ∀ other ∈ after, other.name ≠ route.name := by
  rw [byName, Fields.mem_ofList_iff]
  constructor
  · rintro ⟨before, after, hroutes, hafter⟩
    obtain ⟨front, rest, rfl, rfl, hrest⟩ := List.map_eq_append_iff.1 hroutes
    obtain ⟨found, back, rfl, hfound, rfl⟩ := List.map_eq_cons_iff.1 hrest
    cases hfound
    exact ⟨rfl, front, back, rfl, fun other hother => hafter _ (List.mem_map_of_mem hother)⟩
  · rintro ⟨rfl, before, after, rfl, hafter⟩
    refine ⟨_, _, List.map_append .., fun other hother => ?_⟩
    obtain ⟨found, hfound, rfl⟩ := List.mem_map.1 hother
    exact hafter found hfound

/-- A list of routes has each name once, where it came first. -/
theorem map_name_flatten (configs : List RouteConfig) :
    (flatten configs).map Route.name = Fields.names (byName (listings "" configs)) := by
  rw [flatten, List.map_map, Fields.names]
  exact List.map_congr_left fun pair hpair => (mem_byName_iff.1 hpair).1

/-- The outermost routes list what counts. -/
theorem listings_outermost (configs : List RouteConfig) :
    listings "" configs = (reached configs).map Place.route := by
  have hnone : ([] : List RouteConfig).all RouteConfig.active = true := rfl
  exact listings_eq hnone configs

/-- The route of a name is that of the last place with the name. -/
theorem mem_flatten_iff {configs : List RouteConfig} {route : Route} :
    route ∈ flatten configs ↔ ∃ before place after,
      reached configs = before ++ place :: after ∧
        (∀ other ∈ after, other.name ≠ place.name) ∧ route = place.route := by
  rw [flatten, listings_outermost, List.mem_map]
  constructor
  · rintro ⟨⟨name, found⟩, hmem, rfl⟩
    obtain ⟨-, front, back, hroutes, hback⟩ := mem_byName_iff.1 hmem
    obtain ⟨before, rest, hplaces, rfl, hrest⟩ := List.map_eq_append_iff.1 hroutes
    obtain ⟨place, after, rfl, rfl, rfl⟩ := List.map_eq_cons_iff.1 hrest
    exact ⟨before, place, after, hplaces,
      fun other hother => hback _ (List.mem_map_of_mem hother), rfl⟩
  · rintro ⟨before, place, after, hplaces, hafter, rfl⟩
    refine ⟨(place.name, place.route), mem_byName_iff.2 ⟨rfl, before.map Place.route,
      after.map Place.route, ?_, fun other hother => ?_⟩, rfl⟩
    · rw [hplaces, List.map_append, List.map_cons]
    · obtain ⟨later, hlater, rfl⟩ := List.mem_map.1 hother
      exact hafter later hlater

/-- The names in a list of routes are distinct.  They are those of the routes that count, each at
the place of the first route with that name, and its path, component, view and further fields are
those of the last one.  All paths are normalized, and made of the segments of the route right above
and its own. -/
theorem flatten_eq (configs : List RouteConfig) :
    ((flatten configs).map Route.name).Nodup ∧
    (flatten configs).map Route.name = ((reached configs).map Place.name).eraseDups ∧
    (∀ route, route ∈ flatten configs ↔ ∃ before place after,
      reached configs = before ++ place :: after ∧
        (∀ other ∈ after, other.name ≠ place.name) ∧
        route =
          { name := place.name, path := place.path, component := place.config.component,
            view := place.config.view, extra := place.config.extra }) ∧
    ∀ place ∈ reached configs, Normalized place.path ∧
      pathSegments place.path = fullSegments place.config place.above := by
  refine ⟨?_, ?_, fun route => mem_flatten_iff, fun place _ => ?_⟩
  · rw [map_name_flatten]
    exact Fields.distinct_ofList _
  · rw [map_name_flatten, listings_outermost, byName, Fields.names_ofList, Fields.names,
      List.map_map, List.map_map]
    rfl
  · have hsegments : ∀ s ∈ fullSegments place.config place.above, IsSegment s :=
      fun _ hmem => isSegment_of_mem_fullSegments hmem
    exact ⟨normalized_join hsegments, pathSegments_join hsegments⟩

/-- A help page that takes over the name of the shop, and stands below one of its pages. -/
def helpPage : RouteConfig :=
  ⟨"/help", some "main", some "Help", true, some (.string "manual"), [], [("tier", .int 2)]⟩

def partsPage : RouteConfig :=
  ⟨":item//parts", none, none, true, none, [helpPage], []⟩

/-- Below a page that is not active, nothing counts. -/
def oldPage : RouteConfig :=
  ⟨"old", none, none, false, none, [⟨"/sale", none, none, true, none, [], []⟩], []⟩

def shop : RouteConfig :=
  ⟨"/shop/", some "main", some "Shop", true, none, [partsPage, oldPage], []⟩

/-- The name of the shop keeps its first place and leads to the help page. -/
theorem flatten_shop :
    (flatten [shop]).map Route.name = ["main", "/shop/:item/parts"] ∧
    ⟨"main", "/help", some "Help", some (.string "manual"), [("tier", .int 2)]⟩ ∈
      flatten [shop] ∧
    ⟨"/shop/:item/parts", "/shop/:item/parts", none, none, []⟩ ∈ flatten [shop] := by
  have hreached : reached [shop] =
      [⟨shop, []⟩, ⟨partsPage, [shop]⟩, ⟨helpPage, [partsPage, shop]⟩] := rfl
  have hparts : Place.path ⟨partsPage, [shop]⟩ = "/shop/:item/parts" := by decide +kernel
  have hhelp : Place.path ⟨helpPage, [partsPage, shop]⟩ = "/help" := by decide +kernel
  obtain ⟨-, hnames, hmem, -⟩ := flatten_eq [shop]
  refine ⟨?_, (hmem _).2 ⟨[⟨shop, []⟩, ⟨partsPage, [shop]⟩], _, [], hreached, ?_, ?_⟩,
    (hmem _).2 ⟨[⟨shop, []⟩], _, _, hreached, ?_, ?_⟩⟩
  · rw [hnames, hreached]
    decide +kernel
  · rintro _ ⟨⟩
  · rw [hhelp]
    rfl
  · decide +kernel
  · rw [Place.name, hparts]
    rfl

end Route

end ViewSchema
