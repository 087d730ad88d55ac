import ResourceCli.Proofs.Text.Cutting
import ResourceCli.Proofs.Url.Segments

/-!
# What is read below the URL of a server

A request is put behind the URL of a server and a slash, and the whole text is read as one URL.
Whatever the request puts there, scheme and host are those of the server: they end before the slash.
What is put there is first freed of blanks at its end and of tabs and line breaks (`readable`); then
the query and the fragment are cut off, and the rest is cut into segments, which are carried out
behind those of the server.  `read_below` says so in one equation.
-/

namespace ResourceCli

/-! ## Going up to a character -/

theorem takeWhile_append_cons {α : Type} {p : α → Bool} {a : α} (h : p a = false) (as bs : List α) :
    (as ++ a :: bs).takeWhile p = as.takeWhile p := by
  induction as with
  | nil => exact List.takeWhile_cons_of_neg (Bool.eq_false_iff.1 h)
  | cons b as ih => rw [List.cons_append, List.takeWhile_cons, List.takeWhile_cons, ih]

theorem dropWhile_append_cons {α : Type} {p : α → Bool} {a : α} (h : p a = false) (as bs : List α) :
    (as ++ a :: bs).dropWhile p = as.dropWhile p ++ a :: bs := by
  induction as with
  | nil => exact List.dropWhile_cons_of_neg (Bool.eq_false_iff.1 h)
  | cons b as ih =>
    rw [List.cons_append, List.dropWhile_cons, List.dropWhile_cons, ih]
    split <;> rfl

theorem dropWhile_eq_self_iff_head {α : Type} {p : α → Bool} {as : List α} :
    as.dropWhile p = as ↔ ∀ a ∈ as.head?, p a = false := by
  cases as with
  | nil => simp
  | cons a as =>
    rw [List.dropWhile_cons, List.head?_cons]
    constructor
    · intro h b hb
      cases hb
      by_contra hp
      rw [if_pos (Bool.not_eq_false _ ▸ hp)] at h
      have hshorter := List.length_dropWhile_le p as
      rw [h, List.length_cons] at hshorter
      omega
    · intro h
      rw [if_neg (Bool.eq_false_iff.1 (h a rfl))]

namespace Url

variable {scheme : String} {base : Url} {cs ds : List Char}

/-! ## Characters that are read -/

/-- Whether a character is passed over anywhere. -/
def isLineBreak (c : Char) : Bool := c == '\t' || c == '\n' || c == '\r'

/-- What is read of characters with something before them. -/
def readable (cs : List Char) : List Char :=
  (cs.reverse.dropWhile isPadding).reverse.filter fun c => !isLineBreak c

/-- What is read of characters with something behind them. -/
def front (cs : List Char) : List Char := (cs.dropWhile isPadding).filter fun c => !isLineBreak c

theorem significant_below (server body : String) :
    significant (server ++ "/" ++ body) = front server.toList ++ '/' :: readable body.toList := by
  have hslash : isPadding '/' = false := rfl
  have hchars : (server ++ "/" ++ body).toList = server.toList ++ '/' :: body.toList := by
    rw [String.toList_append, String.toList_append, List.append_assoc]
    rfl
  show ((((server ++ "/" ++ body).toList.dropWhile isPadding).reverse.dropWhile
    isPadding).reverse.filter fun c => !isLineBreak c) = _
  rw [hchars, dropWhile_append_cons hslash, List.reverse_append, List.reverse_cons,
    List.append_assoc, List.singleton_append, dropWhile_append_cons hslash, List.reverse_append,
    List.reverse_cons, List.reverse_reverse, List.append_assoc, List.singleton_append,
    List.filter_append, List.filter_cons_of_pos (by rfl)]
  rfl

/-! ## The parts of a URL, one by one -/

/-- The scheme ends before a slash. -/
theorem cutScheme_below {front rest : List Char}
    (h : cutScheme (front ++ ['/']) = some (scheme, rest)) :
    ∃ rest', rest = rest' ++ ['/'] ∧
      ∀ ds, cutScheme (front ++ '/' :: ds) = some (scheme, rest' ++ '/' :: ds) := by
  cases hcut : Text.cutFirst ':' front with
  | none =>
    have hnone : Text.cutFirst ':' (front ++ ['/']) = none := by
      rw [Text.cutFirst_append_of_notMem (Text.cutFirst_eq_none_iff.1 hcut)]
      rfl
    rw [cutScheme, hnone] at h
    cases h
  | some p =>
    obtain ⟨name, rest'⟩ := p
    have hall : ∀ ds, cutScheme (front ++ ds) =
        (cutScheme front).map fun q => (q.1, q.2 ++ ds) := by
      intro ds
      rw [cutScheme, cutScheme, Text.cutFirst_append_of_some hcut, hcut]
      cases name with
      | nil => rfl
      | cons c name =>
        dsimp only
        split <;> rfl
    rw [hall, Option.map_eq_some_iff] at h
    obtain ⟨⟨scheme', rest''⟩, hfront, he⟩ := h
    cases he
    exact ⟨rest'', rfl, fun ds => by rw [hall, hfront]; rfl⟩

/-- Where there is neither a query nor a fragment, there is none of the characters that they start
with. -/
theorem notMem_of_cutTail (hq : (cutTail true cs).2.1 = none) (hf : (cutTail true cs).2.2 = none) :
    '#' ∉ cs ∧ '?' ∉ cs := by
  unfold cutTail at hq hf
  cases hhash : Text.cutFirst '#' cs with
  | some p =>
    rw [hhash] at hf
    dsimp only at hf
    split at hf <;> cases hf
  | none =>
    rw [hhash] at hq
    dsimp only at hq
    refine ⟨Text.cutFirst_eq_none_iff.1 hhash, Text.cutFirst_eq_none_iff.1 ?_⟩
    cases hmark : Text.cutFirst '?' cs with
    | none => rfl
    | some p =>
      rw [hmark] at hq
      cases hq

/-- Query and fragment are cut off behind characters that start neither. -/
theorem cutTail_append (hhash : '#' ∉ cs) (hmark : '?' ∉ cs) (ds : List Char) :
    cutTail true (cs ++ ds) = (cs ++ (cutTail true ds).1, (cutTail true ds).2) := by
  unfold cutTail
  rw [Text.cutFirst_append_of_notMem hhash]
  cases Text.cutFirst '#' ds with
  | none =>
    dsimp only [Option.map_none]
    rw [Text.cutFirst_append_of_notMem hmark]
    cases Text.cutFirst '?' ds <;> rfl
  | some p =>
    dsimp only [Option.map_some]
    rw [Text.cutFirst_append_of_notMem hmark]
    cases Text.cutFirst '?' p.1 <;> rfl

/-- The segments behind a slash are carried out behind those before it. -/
theorem pathBehindHost_below (h : ∀ c ∈ cs.head?, isSlash true c = true) :
    ∃ before, ∀ ds, pathBehindHost true (cs ++ '/' :: ds) =
      .segments (normalFrom before ((segmentsOf true ds).map (encoded keptInPath))) := by
  cases cs with
  | nil => exact ⟨[], fun ds => rfl⟩
  | cons c cs =>
    refine ⟨((segmentsOf true cs).map (encoded keptInPath)).foldl carry [], fun ds => ?_⟩
    have hne : (segmentsOf true ds).map (encoded keptInPath) ≠ [] := by
      rw [Ne, List.map_eq_nil_iff]
      exact segmentsOf_ne_nil ds
    have hslash : isSlash true '/' = true := rfl
    rw [List.cons_append, pathBehindHost, if_pos (h c rfl), pathOf, segmentsOf_append hslash,
      List.map_append, normalSegments, normalFrom_append _ _ hne]

/-! ## The whole URL -/

theorem scheme_of_readFile (h : readFile? cs = some base) : base.scheme = "file" := by
  unfold readFile? at h
  dsimp only at h
  split at h
  · split at h
    · split at h
      · cases h
        rfl
      · split at h
        · cases h
          rfl
        · obtain ⟨host, -, h⟩ := Option.bind_eq_some_iff.1 h
          cases h
          rfl
    · cases h
      rfl
  · cases h
    rfl

theorem scheme_of_readBehindSlashes (h : readBehindSlashes scheme cs = some base) :
    base.scheme = scheme := by
  unfold readBehindSlashes at h
  obtain ⟨authority, -, h⟩ := Option.bind_eq_some_iff.1 h
  cases h
  rfl

theorem scheme_of_readOther (h : readOther scheme cs = some base) : base.scheme = scheme := by
  unfold readOther at h
  split at h
  · exact scheme_of_readBehindSlashes h
  · cases h
    rfl
  · cases h
    rfl

/-- The URL of a web server is read behind the slashes of its scheme. -/
theorem read_eq_some_iff (hscheme : base.scheme = "http" ∨ base.scheme = "https") {text : String} :
    read text = some base ↔ ∃ rest, cutScheme (significant text) = some (base.scheme, rest) ∧
      readBehindSlashes base.scheme (rest.dropWhile (isSlash true)) = some base := by
  have hweb : (base.scheme == "file") = false ∧ isSpecial base.scheme = true := by
    rcases hscheme with h | h <;> rw [h] <;> decide
  unfold read
  constructor
  · intro h
    obtain ⟨⟨scheme, rest⟩, hcut, h⟩ := Option.bind_eq_some_iff.1 h
    dsimp only at h
    split at h
    · rw [scheme_of_readFile h] at hscheme
      exact absurd hscheme (by decide)
    · split at h
      · obtain rfl := scheme_of_readBehindSlashes h
        exact ⟨rest, hcut, h⟩
      · rename_i hother
        obtain rfl := scheme_of_readOther h
        exact absurd hweb.2 hother
  · rintro ⟨rest, hcut, h⟩
    rw [hcut]
    show (if (base.scheme == "file") = true then readFile? rest
      else if isSpecial base.scheme = true then _ else _) = _
    rw [hweb.1, hweb.2, if_neg Bool.false_ne_true, if_pos rfl]
    exact h

/-- Nothing is read where no host is. -/
theorem readBehindSlashes_nil (h : isSpecial scheme = true) :
    readBehindSlashes scheme [] = none := by
  have hauthority : authorityOf scheme [] = none := by
    unfold authorityOf
    show (if (true && (isSpecial scheme || false || false)) = true then none else _) = none
    rw [h]
    rfl
  show (authorityOf scheme []).bind _ = none
  rw [hauthority]
  rfl

/-- What is read behind the slashes of a scheme. -/
theorem readBehindSlashes_eq (h : isSpecial scheme = true) (cs : List Char) :
    readBehindSlashes scheme cs =
      (authorityOf scheme ((cutTail true cs).1.takeWhile fun c => !isSlash true c)).map fun a =>
        ⟨scheme, some a,
          pathBehindHost true ((cutTail true cs).1.dropWhile fun c => !isSlash true c),
          (cutTail true cs).2.1, (cutTail true cs).2.2⟩ := by
  obtain ⟨⟨before, query, fragment⟩, htail⟩ : ∃ tail, cutTail true cs = tail := ⟨_, rfl⟩
  unfold readBehindSlashes
  rw [h]
  dsimp only
  rw [htail]
  dsimp only
  cases authorityOf scheme (before.takeWhile fun c => !isSlash true c) <;> rfl

/-- A URL with another path and what follows it, which characters behind the host are read as. -/
def continued (base : Url) (before : List String) (cs : List Char) : Url :=
  { base with
    path := .segments
      (normalFrom before ((segmentsOf true (cutTail true cs).1).map (encoded keptInPath)))
    query := (cutTail true cs).2.1
    fragment := (cutTail true cs).2.2 }

/-- The host ends before a slash, and what is behind the slash changes nothing before it. -/
theorem readBehindSlashes_below (h : isSpecial scheme = true) {host : List Char}
    (hread : readBehindSlashes scheme (host ++ ['/']) = some base) (hq : base.query = none)
    (hf : base.fragment = none) :
    ∃ before : List String, base.path = .segments (before.reverse ++ [""]) ∧
      ∀ cs, readBehindSlashes scheme (host ++ '/' :: cs) = some (base.continued before cs) := by
  rw [readBehindSlashes_eq h, Option.map_eq_some_iff] at hread
  obtain ⟨authority, hauthority, hbase⟩ := hread
  have hquery : (cutTail true (host ++ ['/'])).2.1 = none := by rw [← hq, ← hbase]
  have hfragment : (cutTail true (host ++ ['/'])).2.2 = none := by rw [← hf, ← hbase]
  obtain ⟨hhash, hmark⟩ := notMem_of_cutTail hquery hfragment
  have htail : ∀ cs, cutTail true (host ++ '/' :: cs) =
      (host ++ '/' :: (cutTail true cs).1, (cutTail true cs).2) := fun cs => by
    have happend := cutTail_append hhash hmark cs
    rwa [List.append_assoc, List.append_assoc, List.singleton_append, List.singleton_append]
      at happend
  have htake : ∀ cs, (host ++ '/' :: cs).takeWhile (fun c => !isSlash true c) =
      host.takeWhile fun c => !isSlash true c := fun cs => takeWhile_append_cons rfl host cs
  have hdrop : ∀ cs, (host ++ '/' :: cs).dropWhile (fun c => !isSlash true c) =
      host.dropWhile (fun c => !isSlash true c) ++ '/' :: cs :=
    fun cs => dropWhile_append_cons rfl host cs
  have hhead : ∀ c ∈ (host.dropWhile fun c => !isSlash true c).head?, isSlash true c = true := by
    intro c hc
    have hnot := List.head?_dropWhile_not (fun c => !isSlash true c) host
    rw [hc] at hnot
    simpa using hnot
  obtain ⟨before, hpath⟩ := pathBehindHost_below hhead
  refine ⟨before, ?_, fun cs => ?_⟩
  · have hempty : (segmentsOf true []).map (encoded keptInPath) = [""] := rfl
    rw [← hbase, htail]
    dsimp only
    rw [hdrop, hpath, show (cutTail true []).1 = [] from rfl, hempty, normalFrom_empty]
  · rw [htail] at hauthority
    dsimp only at hauthority
    rw [htake] at hauthority
    rw [readBehindSlashes_eq h, htail]
    dsimp only
    rw [htake, hauthority, hdrop, hpath, Option.map_some, continued, ← hbase]

/-- **Whatever is put behind the URL of a server and a slash**, the scheme and the host that are
read are those of the server, and the segments are carried out behind those of the server. -/
theorem read_below {server : String} (h : read (server ++ "/") = some base)
    (hscheme : base.scheme = "http" ∨ base.scheme = "https") (hq : base.query = none)
    (hf : base.fragment = none) :
    ∃ before : List String, base.path = .segments (before.reverse ++ [""]) ∧
      ∀ body : String,
        read (server ++ "/" ++ body) = some (base.continued before (readable body.toList)) := by
  have hspecial : isSpecial base.scheme = true := by
    rcases hscheme with h | h <;> rw [h] <;> decide
  obtain ⟨rest, hcut, hread⟩ := (read_eq_some_iff hscheme).1 h
  have hbare : significant (server ++ "/") = front server.toList ++ ['/'] := by
    have hempty := significant_below server ""
    rwa [String.append_empty] at hempty
  rw [hbare] at hcut
  obtain ⟨rest, rfl, hcutScheme⟩ := cutScheme_below hcut
  -- The host starts before the slash that was put there.
  have hhost : ¬ (rest.dropWhile (isSlash true)).isEmpty = true := by
    intro hnil
    rw [List.dropWhile_append, if_pos hnil, List.dropWhile_cons_of_pos (by rfl),
      List.dropWhile_nil, readBehindSlashes_nil hspecial] at hread
    cases hread
  have hdrop : ∀ cs, (rest ++ '/' :: cs).dropWhile (isSlash true) =
      rest.dropWhile (isSlash true) ++ '/' :: cs := fun cs => by
    rw [List.dropWhile_append, if_neg hhost]
  rw [hdrop] at hread
  obtain ⟨before, hpath, hbelow⟩ := readBehindSlashes_below hspecial hread hq hf
  refine ⟨before, hpath, fun body => (read_eq_some_iff ?_).2
    ⟨_, (congrArg cutScheme (significant_below server body)).trans (hcutScheme _), ?_⟩⟩
  · exact hscheme
  · rw [hdrop]
    exact hbelow _

end Url
end ResourceCli
