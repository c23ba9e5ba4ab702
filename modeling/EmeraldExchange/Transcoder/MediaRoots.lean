import EmeraldExchange.Lib.Words

/-!
# The media roots

Whoever asks for a session names the file that is transcoded. It has to be under one of the media
roots: its path is normalized, without a look at the disk, and its components are compared with
those of the roots. A path is a way down a tree: a name goes to a child, two dots go back to the
parent, and from the root of the tree to itself. The paths that are admitted are those that end at a
root or below one (`pathWithinRoots_iff`).
-/

namespace EmeraldExchange.Transcoder.MediaRoots

open Words

/-! ### Components -/

def slash : UInt8 := 0x2f

def dot : UInt8 := 0x2e

/-- `std::path::Component` -/
inductive Component
  | rootDir
  | curDir
  | parentDir
  | normal (name : List UInt8)
  deriving DecidableEq

/-- What stands between two slashes, unless it is nothing or a dot. -/
def component (piece : List UInt8) : Option Component :=
  if piece = [] ∨ piece = [dot] then none
  else if piece = [dot, dot] then some .parentDir
  else some (.normal piece)

/-- **`Path::components`**: a dot is a component only where a relative path begins with it. -/
def components (path : List UInt8) : List Component :=
  match path with
  | [] => []
  | b :: rest =>
    if b = slash then .rootDir :: (rest.splitOn slash).filterMap component
    else if ((b :: rest).splitOn slash).head? = some [dot] then
      .curDir :: ((b :: rest).splitOn slash).filterMap component
    else ((b :: rest).splitOn slash).filterMap component

/-- `Component::as_os_str` -/
def asOsStr : Component → List UInt8
  | .rootDir => [slash]
  | .curDir => [dot]
  | .parentDir => [dot, dot]
  | .normal name => name

/-- `PathBuf::push` -/
def pushPath (path piece : List UInt8) : List UInt8 :=
  if piece.head? = some slash then piece
  else if path ≠ [] ∧ path.getLast? ≠ some slash then path ++ slash :: piece
  else path ++ piece

def collect (cs : List Component) : List UInt8 := (cs.map asOsStr).foldl pushPath []

/-- One more component, where the last one is first: the parent of a name is what it is in, that of
the root is the root. -/
def pushComponent (out : List Component) : Component → List Component
  | .curDir => out
  | .parentDir =>
    match out with
    | .normal _ :: out => out
    | .rootDir :: _ => out
    | _ => .parentDir :: out
  | c => c :: out

/-- The components that are left, the last one first. -/
def normalized (path : List UInt8) : List Component := (components path).foldl pushComponent []

/-- **`lexically_normalize`** -/
def lexicallyNormalize (path : List UInt8) : List UInt8 := collect (normalized path).reverse

/-- `Path::starts_with` -/
def startsWith (path base : List UInt8) : Bool := (components base).isPrefixOf (components path)

/-- **`path_within_roots`** -/
def pathWithinRoots (input : List UInt8) (roots : List (List UInt8)) : Bool :=
  roots.any fun r => startsWith (lexicallyNormalize input) (lexicallyNormalize r)

/-! ### The tree -/

/-- A place in the tree: the names on the way down to it. -/
abbrev Place := List (List UInt8)

def walk (place : Place) (piece : List UInt8) : Place :=
  if piece = [] ∨ piece = [dot] then place
  else if piece = [dot, dot] then place.dropLast
  else place ++ [piece]

/-- Where a walk from the root of the tree ends. -/
def reach (pieces : List (List UInt8)) : Place := pieces.foldl walk []

/-- **The place of a path**, when it is absolute. -/
def resolve (path : List UInt8) : Option Place :=
  match path with
  | [] => none
  | b :: rest => if b = slash then some (reach (rest.splitOn slash)) else none

/-- **A media root** is an absolute path. -/
structure Root where
  text : List UInt8
  absolute : text.head? = some slash

def Root.place (root : Root) : Place := reach (root.text.tail.splitOn slash)

theorem Root.resolve_text (root : Root) : resolve root.text = some root.place := by
  obtain ⟨_ | ⟨b, rest⟩, habsolute⟩ := root
  · cases habsolute
  · exact if_pos (Option.some.inj habsolute)

/-! ### Names -/

/-- A name stands between two slashes, and is not made of dots. -/
structure Name (name : List UInt8) : Prop where
  ne_nil : name ≠ []
  ne_dot : name ≠ [dot]
  ne_dots : name ≠ [dot, dot]
  noSlash : slash ∉ name

theorem piece_cases {piece : List UInt8} (hpiece : slash ∉ piece) :
    (component piece = none ∧ ∀ place, walk place piece = place) ∨
      (component piece = some .parentDir ∧ ∀ place, walk place piece = place.dropLast) ∨
      (component piece = some (.normal piece) ∧ Name piece ∧
        ∀ place, walk place piece = place ++ [piece]) := by
  by_cases hskip : piece = [] ∨ piece = [dot]
  · exact .inl ⟨if_pos hskip, fun _ => if_pos hskip⟩
  · by_cases hdots : piece = [dot, dot]
    · refine .inr (.inl ⟨?_, fun place => ?_⟩)
      · rw [component, if_neg hskip, if_pos hdots]
      · rw [walk, if_neg hskip, if_pos hdots]
    · refine .inr (.inr ⟨?_, ?_, fun place => ?_⟩)
      · rw [component, if_neg hskip, if_neg hdots]
      · rw [not_or] at hskip
        exact ⟨hskip.1, hskip.2, hdots, hpiece⟩
      · rw [walk, if_neg hskip, if_neg hdots]

theorem component_of_name {name : List UInt8} (h : Name name) :
    component name = some (.normal name) := by
  rw [component, if_neg (not_or.mpr ⟨h.ne_nil, h.ne_dot⟩), if_neg h.ne_dots]

/-- A component that is left of a relative path: two dots, or a name. -/
def Clean (c : Component) : Prop := c = .parentDir ∨ ∃ name, c = .normal name ∧ Name name

theorem Clean.asOsStr {c : Component} (h : Clean c) :
    asOsStr c ≠ [] ∧ slash ∉ asOsStr c ∧ component (asOsStr c) = some c ∧ asOsStr c ≠ [dot] := by
  rcases h with rfl | ⟨name, rfl, hname⟩
  · decide
  · exact ⟨hname.ne_nil, hname.noSlash, component_of_name hname, hname.ne_dot⟩

/-! ### The components of a path that is collected -/

theorem join_cons (piece : List UInt8) : ∀ pieces : List (List UInt8),
    join slash (piece :: pieces) = piece ++ pieces.flatMap fun p => slash :: p
  | [] => by rw [join_singleton, List.flatMap_nil, List.append_nil]
  | p :: ps => by
    rw [join_cons_cons, join_cons p ps]
    rfl

theorem foldl_pushPath : ∀ {pieces : List (List UInt8)} {path : List UInt8}, path ≠ [] →
    path.getLast? ≠ some slash → (∀ p ∈ pieces, p ≠ [] ∧ slash ∉ p) →
    pieces.foldl pushPath path = path ++ pieces.flatMap fun p => slash :: p
  | [], path, _, _, _ => by rw [List.foldl_nil, List.flatMap_nil, List.append_nil]
  | p :: ps, path, hne, hlast, hall => by
    obtain ⟨hp, hslash⟩ := hall p List.mem_cons_self
    have hhead : p.head? ≠ some slash := fun h => hslash (List.mem_of_mem_head? h)
    have hpush : pushPath path p = path ++ slash :: p := by
      rw [pushPath, if_neg hhead, if_pos ⟨hne, hlast⟩]
    have hne' : path ++ slash :: p ≠ [] := by simp
    have hlast' : (path ++ slash :: p).getLast? ≠ some slash := by
      obtain ⟨b, q, rfl⟩ := List.exists_cons_of_ne_nil hp
      rw [List.getLast?_append, List.getLast?_cons_cons, Option.or_of_isSome (by simp)]
      exact fun h => hslash (List.mem_of_getLast? h)
    have ih := foldl_pushPath hne' hlast' fun q hq => hall q (List.mem_cons_of_mem p hq)
    rw [List.foldl_cons, hpush, ih, List.flatMap_cons, List.append_assoc]

theorem foldl_pushPath_append {pieces : List (List UInt8)} {p : List UInt8} (front : List UInt8)
    (hall : ∀ q ∈ p :: pieces, q ≠ [] ∧ slash ∉ q) :
    pieces.foldl pushPath (front ++ p) = front ++ join slash (p :: pieces) := by
  obtain ⟨hp, hslash⟩ := hall p List.mem_cons_self
  have hlast : (front ++ p).getLast? ≠ some slash := by
    rw [List.getLast?_append_of_ne_nil front hp]
    exact fun h => hslash (List.mem_of_getLast? h)
  rw [foldl_pushPath (List.append_ne_nil_of_right_ne_nil front hp) hlast
    fun q hq => hall q (List.mem_cons_of_mem p hq), join_cons, List.append_assoc]

theorem collect_eq {cs : List Component} (hall : ∀ c ∈ cs, Clean c) :
    collect cs = join slash (cs.map asOsStr) ∧
      collect (.rootDir :: cs) = slash :: join slash (cs.map asOsStr) := by
  rcases cs with _ | ⟨c, cs⟩
  · exact ⟨rfl, rfl⟩
  · have hpieces : ∀ q ∈ asOsStr c :: cs.map asOsStr, q ≠ [] ∧ slash ∉ q := by
      intro q hq
      rw [← List.map_cons] at hq
      obtain ⟨d, hd, rfl⟩ := List.mem_map.mp hq
      exact ⟨(hall d hd).asOsStr.1, (hall d hd).asOsStr.2.1⟩
    obtain ⟨-, hslash⟩ := hpieces _ List.mem_cons_self
    have hpush : ∀ front, front = [] ∨ front = [slash] →
        pushPath front (asOsStr c) = front ++ asOsStr c := by
      intro front hfront
      have hhead : (asOsStr c).head? ≠ some slash := fun h => hslash (List.mem_of_mem_head? h)
      rw [pushPath, if_neg hhead, if_neg]
      rcases hfront with rfl | rfl
      · exact fun h => h.1 rfl
      · exact fun h => h.2 rfl
    constructor
    · show (cs.map asOsStr).foldl pushPath (pushPath [] (asOsStr c)) = _
      rw [hpush [] (.inl rfl), foldl_pushPath_append [] hpieces]
      rfl
    · show (cs.map asOsStr).foldl pushPath (pushPath [slash] (asOsStr c)) = _
      rw [hpush [slash] (.inr rfl), foldl_pushPath_append [slash] hpieces]
      rfl

theorem splitOn_join_asOsStr {cs : List Component} (hall : ∀ c ∈ cs, Clean c) (hne : cs ≠ []) :
    (join slash (cs.map asOsStr)).splitOn slash = cs.map asOsStr := by
  refine List.splitOn_intercalate slash ?_ (mt List.map_eq_nil_iff.mp hne)
  intro q hq
  obtain ⟨c, hc, rfl⟩ := List.mem_map.mp hq
  exact (hall c hc).asOsStr.2.1

theorem filterMap_splitOn {cs : List Component} (hall : ∀ c ∈ cs, Clean c) :
    ((join slash (cs.map asOsStr)).splitOn slash).filterMap component = cs := by
  rcases eq_or_ne cs [] with rfl | hne
  · rfl
  · rw [splitOn_join_asOsStr hall hne, List.filterMap_map]
    refine (List.filterMap_congr fun c hc => ?_).trans List.filterMap_some
    exact (hall c hc).asOsStr.2.2.1

theorem components_of_relative {path : List UInt8} (hhead : path.head? ≠ some slash)
    (hdot : (path.splitOn slash).head? ≠ some [dot]) :
    components path = (path.splitOn slash).filterMap component := by
  rcases path with _ | ⟨b, rest⟩
  · rfl
  · have hb : b ≠ slash := fun h => hhead (congrArg some h)
    rw [components, if_neg hb, if_neg hdot]

/-- **A path that is collected has the components that it is collected from.** -/
theorem components_collect {cs : List Component} (hall : ∀ c ∈ cs, Clean c) :
    components (collect cs) = cs ∧
      components (collect (.rootDir :: cs)) = .rootDir :: cs := by
  obtain ⟨hrelative, habsolute⟩ := collect_eq hall
  have hfound := filterMap_splitOn hall
  constructor
  · rw [hrelative, components_of_relative, hfound]
    · rcases cs with _ | ⟨c, cs⟩
      · rintro ⟨⟩
      · obtain ⟨hne, hslash, -⟩ := (hall c List.mem_cons_self).asOsStr
        obtain ⟨b, name, hname⟩ := List.exists_cons_of_ne_nil hne
        rw [List.map_cons, join_cons, hname]
        rintro ⟨⟩
        exact hslash (hname ▸ List.mem_cons_self)
    · rcases cs with _ | ⟨c, cs⟩
      · decide
      · rw [splitOn_join_asOsStr hall (List.cons_ne_nil c cs), List.map_cons, List.head?_cons]
        exact fun h => (hall c List.mem_cons_self).asOsStr.2.2.2 (Option.some.inj h)
  · rw [habsolute, components, if_pos rfl, hfound]

/-! ### Normalization is a walk -/

def stack (place : Place) : List Component := (place.map Component.normal).reverse ++ [.rootDir]

theorem stack_concat (place : Place) (name : List UInt8) :
    stack (place ++ [name]) = .normal name :: stack place := by
  rw [stack, List.map_append, List.reverse_append]
  rfl

theorem pushComponent_parentDir (place : Place) :
    pushComponent (stack place) .parentDir = stack place.dropLast := by
  rcases List.eq_nil_or_concat place with rfl | ⟨front, name, rfl⟩
  · rfl
  · rw [List.concat_eq_append, List.dropLast_concat, stack_concat]
    rfl

/-- **Below the root every component is a step.** -/
theorem foldl_pushComponent : ∀ {pieces : List (List UInt8)} (place : Place),
    (∀ p ∈ pieces, slash ∉ p) → (pieces.filterMap component).foldl pushComponent (stack place) =
      stack (pieces.foldl walk place)
  | [], _, _ => rfl
  | p :: ps, place, hall => by
    have ih := fun place' =>
      foldl_pushComponent place' fun q hq => hall q (List.mem_cons_of_mem p hq)
    rw [List.foldl_cons]
    rcases piece_cases (hall p List.mem_cons_self) with
      ⟨hcomponent, hwalk⟩ | ⟨hcomponent, hwalk⟩ | ⟨hcomponent, -, hwalk⟩
    · rw [List.filterMap_cons_none hcomponent, hwalk, ih]
    · rw [List.filterMap_cons_some hcomponent, List.foldl_cons, pushComponent_parentDir, hwalk, ih]
    · rw [List.filterMap_cons_some hcomponent, List.foldl_cons, hwalk, ← ih, stack_concat]
      rfl

theorem name_of_mem_walk : ∀ {pieces : List (List UInt8)} {place : Place},
    (∀ p ∈ pieces, slash ∉ p) → (∀ name ∈ place, Name name) →
    ∀ name ∈ pieces.foldl walk place, Name name
  | [], _, _, hplace => hplace
  | p :: ps, place, hall, hplace => by
    rw [List.foldl_cons]
    refine name_of_mem_walk (fun q hq => hall q (List.mem_cons_of_mem p hq)) ?_
    rcases piece_cases (hall p List.mem_cons_self) with ⟨-, hwalk⟩ | ⟨-, hwalk⟩ | ⟨-, hname, hwalk⟩
    · rw [hwalk]
      exact hplace
    · rw [hwalk]
      exact fun name hmem => hplace name (List.dropLast_subset place hmem)
    · rw [hwalk]
      intro name hmem
      rcases List.mem_append.mp hmem with hmem | hmem
      · exact hplace name hmem
      · obtain rfl := List.mem_singleton.mp hmem
        exact hname

theorem clean_of_place {place : Place} (hplace : ∀ name ∈ place, Name name) :
    ∀ c ∈ place.map Component.normal, Clean c := by
  intro c hc
  obtain ⟨name, hname, rfl⟩ := List.mem_map.mp hc
  exact .inr ⟨name, rfl, hplace name hname⟩

/-- **An absolute path is normalized to its place.** -/
theorem components_lexicallyNormalize {path : List UInt8} {place : Place}
    (hresolve : resolve path = some place) :
    components (lexicallyNormalize path) = .rootDir :: place.map .normal := by
  rcases path with _ | ⟨b, rest⟩
  · cases hresolve
  · rw [resolve] at hresolve
    split at hresolve
    · next hb =>
      obtain rfl := Option.some.inj hresolve
      have hpieces : ∀ p ∈ rest.splitOn slash, slash ∉ p := fun p => notMem_of_mem_splitOn
      have hnormalized : normalized (b :: rest) = stack (reach (rest.splitOn slash)) := by
        rw [normalized, components, if_pos hb, List.foldl_cons]
        exact foldl_pushComponent [] hpieces
      have hnames : ∀ name ∈ reach (rest.splitOn slash), Name name :=
        name_of_mem_walk hpieces fun _ hmem => absurd hmem List.not_mem_nil
      rw [lexicallyNormalize, hnormalized, stack, List.reverse_append, List.reverse_reverse]
      exact (components_collect (clean_of_place hnames)).2
    · cases hresolve

theorem clean_foldl_pushComponent : ∀ {cs out : List Component},
    (∀ c ∈ cs, c = .curDir ∨ Clean c) → (∀ c ∈ out, Clean c) →
    ∀ c ∈ cs.foldl pushComponent out, Clean c
  | [], _, _, hout => hout
  | d :: ds, out, hall, hout => by
    rw [List.foldl_cons]
    refine clean_foldl_pushComponent (fun c hc => hall c (List.mem_cons_of_mem d hc)) ?_
    have hpush : ∀ {c' : Component}, Clean c' → ∀ c ∈ c' :: out, Clean c := by
      intro c' hc' c hc
      rcases List.mem_cons.mp hc with rfl | hc
      · exact hc'
      · exact hout c hc
    rcases hall d List.mem_cons_self with rfl | rfl | ⟨name, rfl, hname⟩
    · exact hout
    · rw [pushComponent.eq_def]
      dsimp only
      split
      · exact fun c hc => hout c (List.mem_cons_of_mem _ hc)
      · exact hout
      · exact hpush (.inl rfl)
    · exact hpush (.inr ⟨name, rfl, hname⟩)

theorem clean_of_mem_filterMap {path : List UInt8} {c : Component}
    (hc : c ∈ (path.splitOn slash).filterMap component) : Clean c := by
  obtain ⟨piece, hpiece, hcomponent⟩ := List.mem_filterMap.mp hc
  rcases piece_cases (notMem_of_mem_splitOn hpiece) with ⟨hnone, -⟩ | ⟨hdots, -⟩ | ⟨hname, h, -⟩
  · rw [hnone] at hcomponent
    cases hcomponent
  · rw [hdots] at hcomponent
    exact .inl (Option.some.inj hcomponent).symm
  · rw [hname] at hcomponent
    exact .inr ⟨piece, (Option.some.inj hcomponent).symm, h⟩

/-- **A relative path stays relative.** -/
theorem components_lexicallyNormalize_relative {path : List UInt8}
    (hresolve : resolve path = none) : .rootDir ∉ components (lexicallyNormalize path) := by
  have hclean : ∀ c ∈ components path, c = .curDir ∨ Clean c := by
    rcases path with _ | ⟨b, rest⟩
    · exact fun c hc => absurd hc List.not_mem_nil
    · have hb : b ≠ slash := by
        intro hb
        rw [resolve, if_pos hb] at hresolve
        cases hresolve
      rw [components, if_neg hb]
      split
      · intro c hc
        exact (List.mem_cons.mp hc).imp_right clean_of_mem_filterMap
      · exact fun c hc => .inr (clean_of_mem_filterMap hc)
  have hnormalized : ∀ c ∈ (normalized path).reverse, Clean c := fun c hc =>
    clean_foldl_pushComponent hclean (fun _ h => absurd h List.not_mem_nil) c
      (List.mem_reverse.mp hc)
  rw [lexicallyNormalize, (components_collect hnormalized).1]
  intro hmem
  rcases hnormalized _ hmem with h | ⟨name, h, -⟩
  · cases h
  · cases h

/-- **The paths that are admitted are those that end at a root or below one.** -/
theorem pathWithinRoots_iff (input : List UInt8) (roots : List Root) :
    pathWithinRoots input (roots.map Root.text) = true ↔
      ∃ place, resolve input = some place ∧ ∃ root ∈ roots, root.place <+: place := by
  have hroot : ∀ root : Root,
      startsWith (lexicallyNormalize input) (lexicallyNormalize root.text) = true ↔
        .rootDir :: root.place.map .normal <+: components (lexicallyNormalize input) := by
    intro root
    rw [startsWith, List.isPrefixOf_iff_prefix, components_lexicallyNormalize root.resolve_text]
  rw [pathWithinRoots, List.any_map, List.any_eq_true]
  simp only [Function.comp_apply, hroot]
  rcases hresolve : resolve input with _ | place
  · have hrelative := components_lexicallyNormalize_relative hresolve
    constructor
    · rintro ⟨root, -, hbelow⟩
      exact absurd (hbelow.subset List.mem_cons_self) hrelative
    · rintro ⟨_, ⟨⟩, -⟩
  · have hinjective : Function.Injective Component.normal := fun _ _ h => Component.normal.inj h
    rw [components_lexicallyNormalize hresolve]
    simp only [List.cons_prefix_cons, true_and, List.prefix_map_iff_of_injective hinjective]
    constructor
    · rintro ⟨root, hmem, hbelow⟩
      exact ⟨place, rfl, root, hmem, hbelow⟩
    · rintro ⟨_, ⟨⟩, root, hmem, hbelow⟩
      exact ⟨root, hmem, hbelow⟩

end EmeraldExchange.Transcoder.MediaRoots
