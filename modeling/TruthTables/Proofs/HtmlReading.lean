import TruthTables.Proofs.Words
import TruthTables.Table.Html

/-! # HTML documents are read back -/
namespace TruthTables.Table

namespace Html

section Escaping

/-- The characters that an escaped text stands for. An ampersand that starts no reference stands for itself. -/
def unescapeChars : List Char → List Char
  | '&' :: 'a' :: 'm' :: 'p' :: ';' :: cs => '&' :: unescapeChars cs
  | '&' :: 'l' :: 't' :: ';' :: cs => '<' :: unescapeChars cs
  | '&' :: 'g' :: 't' :: ';' :: cs => '>' :: unescapeChars cs
  | '&' :: 'q' :: 'u' :: 'o' :: 't' :: ';' :: cs => '\x22' :: unescapeChars cs
  | c :: cs => c :: unescapeChars cs
  | [] => []

def unescape (s : String) : String := String.ofList (unescapeChars s.toList)

theorem unescapeChars_of_ne {c : Char} (hc : c ≠ '&') (cs : List Char) :
    unescapeChars (c :: cs) = c :: unescapeChars cs := by
  rw [unescapeChars]
  all_goals
    rintro _ rfl
    exact absurd rfl hc

/-- What is written for an ampersand starts with one too, so a reference in the original is not taken for one. -/
theorem unescapeChars_escapeChar (c : Char) (cs : List Char) :
    unescapeChars (escapeChar c ++ cs) = c :: unescapeChars cs := by
  fun_cases escapeChar c with
  | case1 => rfl
  | case2 => rfl
  | case3 => rfl
  | case4 => rfl
  | case5 c hamp => exact unescapeChars_of_ne hamp cs

theorem unescape_escape (s : String) : unescape (escape s) = s := by
  have hchars : ∀ cs : List Char, unescapeChars (cs.flatMap escapeChar) = cs := by
    intro cs
    induction cs with
    | nil => rfl
    | cons c cs ih => rw [List.flatMap_cons, unescapeChars_escapeChar, ih]
  rw [unescape, escape, String.toList_ofList, hchars, String.ofList_toList]

theorem safe_escapeChar (c : Char) : ∀ d ∈ escapeChar c, d ≠ '<' ∧ d ≠ '>' ∧ d ≠ '\x22' := by
  fun_cases escapeChar c with
  | case1 => simp
  | case2 => simp
  | case3 => simp
  | case4 => simp
  | case5 c _ hlt hgt hquote => simpa using ⟨hlt, hgt, hquote⟩

theorem safe_escape (s : String) : ∀ c ∈ (escape s).toList, c ≠ '<' ∧ c ≠ '>' ∧ c ≠ '\x22' := by
  intro c hc
  rw [escape, String.toList_ofList, List.mem_flatMap] at hc
  obtain ⟨d, -, hd⟩ := hc
  exact safe_escapeChar d c hd

end Escaping

section Markup

/-- The tags of a document in their order, each with the text up to the next one. -/
def markup (s : String) : List (String × String) :=
  (s.toList.splitOn '<').tail.map fun cs =>
    (String.ofList (cs.takeWhile (· ≠ '>')), String.ofList (cs.dropWhile (· ≠ '>')).tail)

def tags (s : String) : List String := (markup s).map Prod.fst

def piece (p : String × String) : String := "<" ++ p.1 ++ ">" ++ p.2

/-- A tag that ends at its own bracket, and a text that starts no tag. -/
structure Clean (p : String × String) : Prop where
  tag : ∀ c ∈ p.1.toList, c ≠ '<' ∧ c ≠ '>'
  text : '<' ∉ p.2.toList

theorem tag_of_all {tag : String} (h : tag.toList.all (fun c => c ≠ '<' && c ≠ '>') = true) :
    ∀ c ∈ tag.toList, c ≠ '<' ∧ c ≠ '>' := by
  intro c hc
  simpa using List.all_eq_true.1 h c hc

theorem intercalate_cons (sep cs : List Char) (css : List (List Char)) :
    sep.intercalate (cs :: css) = cs ++ css.flatMap (sep ++ ·) := by
  induction css generalizing cs with
  | nil => simp
  | cons ds css ih => rw [List.intercalate_cons_cons, ih, List.flatMap_cons, List.append_assoc, List.append_assoc]

def Written (ps : List (String × String)) (s : String) : Prop := s = String.join (ps.map piece)

theorem Written.append {ps qs : List (String × String)} {s u : String} (h : Written ps s) (h' : Written qs u) :
    Written (ps ++ qs) (s ++ u) := by
  rw [Written, List.map_append, String.join_append, h, h']

theorem Written.join {α : Type} {as : List α} {f : α → List (String × String)} {g : α → String}
    (h : ∀ a ∈ as, Written (f a) (g a)) : Written (as.flatMap f) (String.join (as.map g)) := by
  induction as with
  | nil => rfl
  | cons a as ih =>
    obtain ⟨ha, has⟩ := List.forall_mem_cons.1 h
    rw [List.flatMap_cons, List.map_cons, String.join_cons]
    exact ha.append (ih has)

/-- What is written piece by piece is cut into these pieces again. -/
theorem Written.markup_eq {ps : List (String × String)} {s : String} (hs : Written ps s)
    (h : ∀ p ∈ ps, Clean p) : markup s = ps := by
  let body (p : String × String) : List Char := p.1.toList ++ '>' :: p.2.toList
  have htext : s.toList = ['<'].intercalate ([] :: ps.map body) := by
    rw [hs, String.toList_join, intercalate_cons, List.flatMap_map, List.flatMap_map, List.nil_append]
    apply List.flatMap_congr
    intro p _
    simp [piece, body]
  have hbody : ∀ cs ∈ [] :: ps.map body, '<' ∉ cs := by
    intro cs hcs hc
    rcases List.mem_cons.1 hcs with rfl | hcs
    · simp at hc
    · obtain ⟨p, hp, rfl⟩ := List.mem_map.1 hcs
      rcases List.mem_append.1 hc with hc | hc
      · exact ((h p hp).tag _ hc).1 rfl
      · rcases List.mem_cons.1 hc with hc | hc
        · exact absurd hc (by decide)
        · exact (h p hp).text hc
  rw [markup, htext, List.splitOn_intercalate '<' hbody (List.cons_ne_nil _ _), List.tail_cons, List.map_map]
  refine (List.map_congr_left fun p hp => ?_).trans (List.map_id ps)
  have hstop : ∀ c ∈ ('>' :: p.2.toList).head?, decide (c ≠ '>') = false := by simp
  have htag : ∀ c ∈ p.1.toList, decide (c ≠ '>') = true := fun c hc => decide_eq_true ((h p hp).tag c hc).2
  obtain ⟨htake, hdrop⟩ := Token.takeWhile_append_stop htag hstop
  simp only [Function.comp_apply, body, htake, hdrop, List.tail_cons, String.ofList_toList, id]

end Markup

section Rows

def rowMarkup (cell : String) (fields : List String) : List (String × String) :=
  ("tr", "") :: fields.flatMap (fun field => [(cell, field), ("/" ++ cell, "")]) ++ [("/tr", "")]

theorem written_cells (cell field : String) (fields : List String) :
    Written ((field :: fields).flatMap fun field => [(cell, field), ("/" ++ cell, "")])
      ("<" ++ cell ++ ">" ++ String.intercalate ("</" ++ cell ++ "><" ++ cell ++ ">") (field :: fields) ++
        ("</" ++ cell ++ ">")) := by
  induction fields generalizing field with
  | nil => apply String.toList_inj.1; simp [piece]
  | cons next fields ih =>
    rw [Written, List.flatMap_cons, List.map_append, String.join_append, ← ih, String.intercalate_cons_cons]
    apply String.toList_inj.1
    simp [piece]

theorem written_rowMarkup (cell : String) {fields : List String} (hfields : fields ≠ []) :
    Written (rowMarkup cell fields) ("<tr><" ++ cell ++ ">" ++
      String.intercalate ("</" ++ cell ++ "><" ++ cell ++ ">") fields ++ ("</" ++ cell ++ "></tr>")) := by
  obtain ⟨field, fields, rfl⟩ := List.exists_cons_of_ne_nil hfields
  rw [Written, rowMarkup, List.map_append, List.map_cons, String.join_append, String.join_cons,
    ← written_cells]
  apply String.toList_inj.1
  simp [piece]

theorem written_headerRow {t : Table} (ht : t.columns ≠ []) :
    Written (rowMarkup "th" (t.columns.map (escape ·.label))) (headerRow t) :=
  written_rowMarkup "th" (mt List.map_eq_nil_iff.1 ht)

theorem written_row {r : Row} (hr : r ≠ []) : Written (rowMarkup "td" (r.map Cell.text)) (row r) :=
  written_rowMarkup "td" (mt List.map_eq_nil_iff.1 hr)

theorem clean_rowMarkup {cell : String} {fields : List String}
    (hcell : ∀ c ∈ cell.toList, c ≠ '<' ∧ c ≠ '>') (hfields : ∀ field ∈ fields, '<' ∉ field.toList) :
    ∀ p ∈ rowMarkup cell fields, Clean p := by
  intro p hp
  rw [rowMarkup, List.mem_append, List.mem_cons, List.mem_flatMap, List.mem_singleton] at hp
  rcases hp with (rfl | ⟨field, hfield, hp⟩) | rfl
  · exact ⟨tag_of_all (by decide), by decide⟩
  · rcases List.mem_cons.1 hp with rfl | hp
    · exact ⟨hcell, hfields field hfield⟩
    · obtain rfl := List.mem_singleton.1 hp
      refine ⟨fun c hc => ?_, nofun⟩
      rw [String.toList_append, List.mem_append] at hc
      rcases hc with hc | hc
      · obtain rfl : c = '/' := by simpa using hc
        exact ⟨by decide, by decide⟩
      · exact hcell c hc
  · exact ⟨tag_of_all (by decide), by decide⟩

def rowTags (cell : String) (n : Nat) : List String :=
  "tr" :: (List.replicate n [cell, "/" ++ cell]).flatten ++ ["/tr"]

theorem tags_rowMarkup (cell : String) (fields : List String) :
    (rowMarkup cell fields).map Prod.fst = rowTags cell fields.length := by
  have hcells : (fields.flatMap fun field => [(cell, field), ("/" ++ cell, "")]).map Prod.fst =
      (List.replicate fields.length [cell, "/" ++ cell]).flatten := by
    rw [List.map_flatMap, ← List.map_const, ← List.flatMap_def]
    rfl
  rw [rowMarkup, rowTags, List.map_append, List.map_cons, hcells]
  rfl

/-- The texts in the cells up to the next row, and those in the cells of the rows. -/
def grid : List (String × String) → List String × List (List String)
  | [] => ([], [])
  | (tag, text) :: ps =>
    if tag = "tr" then ([], (grid ps).1 :: (grid ps).2)
    else if tag = "th" || tag = "td" then (text :: (grid ps).1, (grid ps).2)
    else grid ps

theorem grid_cell {cell : String} (hcell : cell = "th" ∨ cell = "td") (field : String)
    (ps : List (String × String)) :
    grid ((cell, field) :: ("/" ++ cell, "") :: ps) = (field :: (grid ps).1, (grid ps).2) := by
  rcases hcell with rfl | rfl <;> rfl

theorem grid_cells {cell : String} (hcell : cell = "th" ∨ cell = "td") (fields : List String)
    (ps : List (String × String)) :
    grid (fields.flatMap (fun field => [(cell, field), ("/" ++ cell, "")]) ++ ps) =
      (fields ++ (grid ps).1, (grid ps).2) := by
  induction fields with
  | nil => rfl
  | cons field fields ih =>
    rw [List.flatMap_cons, List.append_assoc, List.cons_append, List.cons_append, List.nil_append,
      grid_cell hcell, ih]
    rfl

theorem grid_rowMarkup {cell : String} (hcell : cell = "th" ∨ cell = "td") (fields : List String)
    {ps : List (String × String)} (hps : (grid ps).1 = []) :
    grid (rowMarkup cell fields ++ ps) = ([], fields :: (grid ps).2) := by
  have hend : grid (("/tr", "") :: ps) = grid ps := rfl
  rw [rowMarkup, List.append_assoc, List.cons_append, List.singleton_append, grid, if_pos rfl,
    grid_cells hcell, hend, hps, List.append_nil]

end Rows

section Document

def heading : String := "Truth table for "

def frontMarkup (title : String) : List (String × String) :=
  [("!DOCTYPE html", "\n"), ("h1", heading ++ escape title), ("/h1", ""), ("style", style), ("/style", ""),
    ("table", "")]

def tableMarkup (t : Table) : List (String × String) :=
  frontMarkup t.title ++ rowMarkup "th" (t.columns.map (escape ·.label)) ++
    t.rows.flatMap (fun r => rowMarkup "td" (r.map Cell.text)) ++ [("/table", "\n")]

theorem written_frontMarkup (title : String) :
    Written (frontMarkup title)
      ("<!DOCTYPE html>\n<h1>Truth table for " ++ escape title ++ "</h1><style>" ++ style ++
        "</style><table>") := by
  have hfirst : "<!DOCTYPE html>\n<h1>Truth table for " =
      "<" ++ "!DOCTYPE html" ++ ">" ++ "\n" ++ ("<" ++ "h1" ++ ">") ++ heading := by rfl
  have hstyle : "</h1><style>" = "<" ++ "/h1" ++ ">" ++ "" ++ ("<" ++ "style" ++ ">") := by rfl
  have htable : "</style><table>" = "<" ++ "/style" ++ ">" ++ "" ++ ("<" ++ "table" ++ ">" ++ "" ++ "") := by rfl
  rw [hfirst, hstyle, htable]
  simp only [Written, frontMarkup, piece, List.map_cons, List.map_nil, String.join_cons,
    String.join_nil, String.append_assoc]

theorem not_mem_append {a b : String} (ha : '<' ∉ a.toList) (hb : '<' ∉ b.toList) : '<' ∉ (a ++ b).toList := by
  rw [String.toList_append, List.mem_append, not_or]
  exact ⟨ha, hb⟩

theorem not_mem_style : '<' ∉ style.toList := by
  have literal (cs : List Char) (h : '<' ∉ cs) : '<' ∉ (String.ofList cs).toList := by rwa [String.toList_ofList]
  apply not_mem_append (not_mem_append (not_mem_append (not_mem_append (not_mem_append _ _) _) _) _) _
  all_goals
    apply literal
    decide

theorem not_mem_escape (s : String) : '<' ∉ (escape s).toList := fun h => (safe_escape s _ h).1 rfl

theorem clean_frontMarkup (title : String) : ∀ p ∈ frontMarkup title, Clean p := by
  have hheading : '<' ∉ (heading ++ escape title).toList := not_mem_append (by decide) (not_mem_escape title)
  have clean {tag text : String} (h : tag.toList.all (fun c => c ≠ '<' && c ≠ '>') = true)
      (h' : '<' ∉ text.toList) : Clean (tag, text) := ⟨tag_of_all h, h'⟩
  simp only [frontMarkup, List.forall_mem_cons]
  exact ⟨clean (by decide) (by decide), clean (by decide) hheading, clean (by decide) (by decide),
    clean (by decide) not_mem_style, clean (by decide) (by decide), clean (by decide) (by decide), nofun⟩

theorem clean_tableMarkup (t : Table) : ∀ p ∈ tableMarkup t, Clean p := by
  have hcell : ∀ cell : Cell, '<' ∉ cell.text.toList := by
    intro cell
    cases cell with
    | value b => cases b <;> decide
    | blank => decide
  intro p hp
  simp only [tableMarkup, List.mem_append, List.mem_flatMap, List.mem_singleton] at hp
  rcases hp with ((hp | hp) | ⟨r, -, hp⟩) | rfl
  · exact clean_frontMarkup t.title p hp
  · refine clean_rowMarkup (tag_of_all (by decide)) (fun field hfield => ?_) p hp
    obtain ⟨c, -, rfl⟩ := List.mem_map.1 hfield
    exact not_mem_escape c.label
  · refine clean_rowMarkup (tag_of_all (by decide)) (fun field hfield => ?_) p hp
    obtain ⟨c, -, rfl⟩ := List.mem_map.1 hfield
    exact hcell c
  · exact ⟨tag_of_all (by decide), by decide⟩

/-- A document is cut at its tags into the markup of its table. -/
theorem markup_toHtml {t : Table} (hcolumns : t.columns ≠ []) (hrows : ∀ r ∈ t.rows, r ≠ []) :
    markup t.toHtml = tableMarkup t := by
  have hfront := written_frontMarkup t.title
  have hheader := written_headerRow hcolumns
  have hbody := Written.join fun r hr => written_row (hrows r hr)
  have hend : Written [("/table", "\n")] "</table>\n" := by rfl
  exact (((hfront.append hheader).append hbody).append hend).markup_eq (clean_tableMarkup t)

/-- The tags of the document of a table with a number of columns, and rows of given lengths. -/
def documentTags (columns : Nat) (lengths : List Nat) : List String :=
  ["!DOCTYPE html", "h1", "/h1", "style", "/style", "table"] ++ rowTags "th" columns ++
    lengths.flatMap (rowTags "td") ++ ["/table"]

/-- The texts of a table make no difference to the tags of its document. -/
theorem tags_toHtml {t : Table} (hcolumns : t.columns ≠ []) (hrows : ∀ r ∈ t.rows, r ≠ []) :
    tags t.toHtml = documentTags t.columns.length (t.rows.map List.length) := by
  have hfront : (frontMarkup t.title).map Prod.fst =
      ["!DOCTYPE html", "h1", "/h1", "style", "/style", "table"] := rfl
  rw [tags, markup_toHtml hcolumns hrows, tableMarkup, List.map_append, List.map_append, List.map_append,
    List.map_flatMap, hfront, documentTags, List.flatMap_map]
  simp only [tags_rowMarkup, List.length_map, List.map_cons, List.map_nil]

def cellOf : String → Cell
  | "1" => .value true
  | "0" => .value false
  | _ => .blank

/-- The title, the labels and the rows that are found in a document. -/
def read (s : String) : Option (String × List String × List Row) :=
  match (markup s).lookup "h1", (grid (markup s)).2 with
  | some text, labels :: rows =>
    some (unescape (String.ofList (text.toList.drop heading.length)), labels.map unescape,
      rows.map (·.map cellOf))
  | _, _ => none

theorem grid_tableMarkup (t : Table) :
    (grid (tableMarkup t)).2 = t.columns.map (escape ·.label) :: t.rows.map (·.map Cell.text) := by
  have hrows : ∀ rows : List Row,
      grid (rows.flatMap (fun r => rowMarkup "td" (r.map Cell.text)) ++ [("/table", "\n")]) =
        ([], rows.map (·.map Cell.text)) := by
    intro rows
    induction rows with
    | nil => rfl
    | cons r rows ih =>
      rw [List.flatMap_cons, List.append_assoc, grid_rowMarkup (.inr rfl) _ (by rw [ih]), ih]
      rfl
  have hfront : ∀ ps, grid (frontMarkup t.title ++ ps) = grid ps := fun ps => rfl
  rw [tableMarkup, List.append_assoc, List.append_assoc, hfront,
    grid_rowMarkup (.inl rfl) _ (by rw [hrows]), hrows]

theorem read_toHtml {t : Table} (hcolumns : t.columns ≠ []) (hrows : ∀ r ∈ t.rows, r ≠ []) :
    read t.toHtml = some (t.title, t.columns.map (·.label), t.rows) := by
  have hlookup : (tableMarkup t).lookup "h1" = some (heading ++ escape t.title) := rfl
  have htitle : (heading ++ escape t.title).toList.drop heading.length = (escape t.title).toList := by
    rw [String.toList_append, ← String.length_toList, List.drop_left]
  have hlabels : (t.columns.map (escape ·.label)).map unescape = t.columns.map (·.label) := by
    rw [List.map_map]
    exact List.map_congr_left fun c _ => unescape_escape c.label
  have hcell : cellOf ∘ Cell.text = id := by
    funext c
    cases c with
    | value b => cases b <;> rfl
    | blank => rfl
  have hcells : (t.rows.map (·.map Cell.text)).map (·.map cellOf) = t.rows := by
    rw [List.map_map]
    refine (List.map_congr_left fun r _ => ?_).trans (List.map_id t.rows)
    rw [Function.comp_apply, List.map_map, hcell, List.map_id, id]
  rw [read, markup_toHtml hcolumns hrows, grid_tableMarkup, hlookup]
  simp only [htitle, hlabels, hcells, String.ofList_toList, unescape_escape]

end Document

end Html

/-- Documents of two tables with cells in every row are the same only if the tables have the same title, the same
labels and the same rows. What the texts are makes no difference to the tags, since an escaped text has no bracket
and no quote in it, and stands for the original. -/
theorem toHtml_lossless :
    (∀ t u : Table, 0 < t.columns.length → (∀ r ∈ t.rows, 0 < r.length) →
      0 < u.columns.length → (∀ r ∈ u.rows, 0 < r.length) →
      (t.toHtml = u.toHtml →
        t.title = u.title ∧ t.columns.map (·.label) = u.columns.map (·.label) ∧ t.rows = u.rows) ∧
      (t.columns.length = u.columns.length → t.rows.map List.length = u.rows.map List.length →
        Html.tags t.toHtml = Html.tags u.toHtml)) ∧
    ∀ s, (∀ c ∈ (Html.escape s).toList, c ≠ '<' ∧ c ≠ '>' ∧ c ≠ '\x22') ∧
      Html.unescape (Html.escape s) = s := by
  refine ⟨fun t u htc htr huc hur => ?_, fun s => ⟨Html.safe_escape s, Html.unescape_escape s⟩⟩
  have htcolumns := List.length_pos_iff.1 htc
  have htrows : ∀ r ∈ t.rows, r ≠ [] := fun r hr => List.length_pos_iff.1 (htr r hr)
  have hucolumns := List.length_pos_iff.1 huc
  have hurows : ∀ r ∈ u.rows, r ≠ [] := fun r hr => List.length_pos_iff.1 (hur r hr)
  constructor
  · intro h
    have hread := congrArg Html.read h
    rw [Html.read_toHtml htcolumns htrows, Html.read_toHtml hucolumns hurows] at hread
    simpa only [Option.some.injEq, Prod.mk.injEq] using hread
  · intro hcolumns hlengths
    rw [Html.tags_toHtml htcolumns htrows, Html.tags_toHtml hucolumns hurows, hcolumns, hlengths]

/-- Two tables that differ in the kinds of their columns only, and a third one whose texts look like tags and
references. -/
theorem toHtml_lossless_markup :
    let rows : List Row := [[.value true, .blank], [.blank, .value false, .blank]]
    let t : Table := ⟨"&lt;", [⟨"p", .primitive⟩, ⟨"<b>", .separator⟩], rows⟩
    let u : Table := ⟨"&lt;", [⟨"p", .derived⟩, ⟨"<b>", .primitive⟩], rows⟩
    let w : Table := ⟨"</h1><h1>", [⟨"</th><th>", .derived⟩, ⟨"&amp;\x22", .separator⟩],
      [[.blank, .blank], [.value true, .value true, .blank]]⟩
    (0 < t.columns.length ∧ (∀ r ∈ t.rows, 0 < r.length) ∧ t.toHtml = u.toHtml) ∧
      (t.title = u.title ∧ t.columns.map (·.label) = u.columns.map (·.label) ∧ t.rows = u.rows) ∧
      Html.tags t.toHtml = Html.tags w.toHtml ∧ Html.unescape (Html.escape "&lt;") = "&lt;" := by
  intro rows t u w
  have ht : ∀ r ∈ t.rows, 0 < r.length := by decide
  have hw : ∀ r ∈ w.rows, 0 < r.length := by decide
  have h : t.toHtml = u.toHtml := rfl
  obtain ⟨hpairs, htexts⟩ := toHtml_lossless
  exact ⟨⟨by decide, ht, h⟩, (hpairs t u (by decide) ht (by decide) ht).1 h,
    (hpairs t w (by decide) ht (by decide) hw).2 rfl rfl, (htexts "&lt;").2⟩

end TruthTables.Table
