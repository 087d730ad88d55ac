import ResourceCli.Proofs.Survey.Hierarchy
import ResourceCli.Proofs.Text.Cutting

/-!
# Where the requests of a document go

Requests go to the URL that is given.  If none is given they go to the one that the document
declares, without slashes at its end and with the prefix behind it; and a document without one is
refused.  `Document.Directs` says this of a URL.

The resources of a document come with such a URL but for two kinds of declared ones
(`Document.Misdirects`).  Whether a server has a URL is asked before the slashes at the end of it
are taken off, so that one of slashes alone is not refused, and nothing is left of it.  And of a URL
that is made up of scheme, host and base path, only the base path is freed of slashes, so that those
of a host stay if the base path has nothing else.  `Document.directs_iff` says that there are no
other ones.
-/

namespace ResourceCli

namespace Document

/-- The URL that a document declares, as it is written: that of its first server that has one, or
else, in the legacy dialect, the one that is made up of scheme, host and base path. -/
inductive Declares (doc : Document) : String → Prop
  /-- The URL of the first server that has one. -/
  | server {before after : List Server} {server : Server}
      (hservers : doc.servers = before ++ server :: after) (hbefore : ∀ s ∈ before, s.url = "")
      (hurl : server.url ≠ "") : Declares doc server.url
  /-- Scheme, host and base path. -/
  | host {host : String} (hservers : ∀ s ∈ doc.servers, s.url = "")
      (hlegacy : doc.dialect = .legacy) (hhost : doc.host = some host) (hne : host ≠ "") :
      Declares doc (doc.schemes.head?.getD "https" ++ "://" ++ host ++ doc.basePath.getD "")

/-- Where requests are to go: to somewhere, to the URL that is given, and without one to the URL
that is declared, without slashes at its end and with the prefix behind it. -/
structure Directs (doc : Document) (asked : Option String) (start url : String) : Prop where
  /-- There is somewhere to go. -/
  somewhere : url ≠ ""
  /-- A URL that is given is taken as it is. -/
  given : ∀ u, asked = some u → u ≠ "" → url = u
  /-- Without one there has to be one that is declared, and not only of slashes. -/
  declared : (∀ u, asked = some u → u = "") → ∃ written, doc.Declares written ∧
    Text.dropEndChar '/' written ≠ "" ∧ url = Text.dropEndChar '/' written ++ start

/-- A declared URL that is not treated as it should be. -/
inductive Misdirects (doc : Document) : Prop
  /-- There is nothing but slashes in it. -/
  | slashes {written : String} (h : doc.Declares written) (hall : ∀ c ∈ written.toList, c = '/')
  /-- It ends with slashes of its host, and maybe some of its base path. -/
  | host {host : String} (hservers : ∀ s ∈ doc.servers, s.url = "")
      (hlegacy : doc.dialect = .legacy) (hhost : doc.host = some host)
      (hslash : host.toList.getLast? = some '/')
      (hbase : ∀ c ∈ (doc.basePath.getD "").toList, c = '/')

end Document

/-! ## What is declared -/

namespace Document

variable {doc : Document} {given : Option String} {start url : String} {g : ResourceGraph}

/-- The first server that has a URL. -/
theorem find?_servers_eq_some_iff {servers : List Server} {server : Server} :
    servers.find? (·.url != "") = some server ↔
      ∃ before after, servers = before ++ server :: after ∧ (∀ s ∈ before, s.url = "") ∧
        server.url ≠ "" := by
  rw [List.find?_eq_some_iff_append]
  simp only [bne_iff_ne, Bool.not_eq_true', bne_eq_false_iff_eq]
  constructor
  · rintro ⟨hurl, before, after, h, hbefore⟩
    exact ⟨before, after, h, hbefore, hurl⟩
  · rintro ⟨before, after, h, hbefore, hurl⟩
    exact ⟨hurl, before, after, h, hbefore⟩

theorem find?_servers_eq_none_iff {servers : List Server} :
    servers.find? (·.url != "") = none ↔ ∀ s ∈ servers, s.url = "" := by
  simp

/-- A document declares one URL at most. -/
theorem Declares.unique {written written' : String} (h : doc.Declares written)
    (h' : doc.Declares written') : written = written' := by
  cases h with
  | server hservers hbefore hurl =>
    have hfind := find?_servers_eq_some_iff.2 ⟨_, _, hservers, hbefore, hurl⟩
    cases h' with
    | server hservers' hbefore' hurl' =>
      have hfind' := find?_servers_eq_some_iff.2 ⟨_, _, hservers', hbefore', hurl'⟩
      rw [Option.some.inj (hfind.symm.trans hfind')]
    | host hnone _ _ _ =>
      rw [find?_servers_eq_none_iff.2 hnone] at hfind
      cases hfind
  | host hnone _ hhost _ =>
    cases h' with
    | server hservers' hbefore' hurl' =>
      have hfind' := find?_servers_eq_some_iff.2 ⟨_, _, hservers', hbefore', hurl'⟩
      rw [find?_servers_eq_none_iff.2 hnone] at hfind'
      cases hfind'
    | host _ _ hhost' _ => rw [Option.some.inj (hhost.symm.trans hhost')]

/-- What is made up of scheme, host and base path ends with a slash of the host, or it does not
depend on the host which slashes are taken off. -/
theorem dropEndChar_host_eq_iff {scheme host base : String} (hne : host ≠ "") :
    Text.dropEndChar '/' (scheme ++ "://" ++ host ++ base) =
        scheme ++ "://" ++ host ++ Text.dropEndChar '/' base ↔
      ¬ (host.toList.getLast? = some '/' ∧ ∀ c ∈ base.toList, c = '/') := by
  have hlast : (scheme ++ "://" ++ host).toList.getLast? = host.toList.getLast? := by
    rw [String.toList_append, List.getLast?_append_of_ne_nil]
    exact fun h => hne (String.toList_eq_nil_iff.1 h)
  by_cases hbase : ∀ c ∈ base.toList, c = '/'
  · rw [Text.dropEndChar_append_eq_iff.2 hbase, Text.dropEndChar_eq_empty_iff.2 hbase,
      String.append_empty, Text.dropEndChar_eq_self_iff, hlast]
    exact not_congr ⟨fun h => ⟨h, hbase⟩, And.left⟩
  · have hkept := mt Text.dropEndChar_eq_empty_iff.1 hbase
    exact iff_of_true (Text.dropEndChar_append hkept _) fun h => hbase h.2

/-- A URL that is made up of scheme, host and base path has a colon. -/
theorem not_slashes_of_host (scheme host base : String) :
    ¬ ∀ c ∈ (scheme ++ "://" ++ host ++ base).toList, c = '/' := by
  intro hall
  cases hall ':' (by simp)

theorem host_ne_empty (scheme host base : String) : scheme ++ "://" ++ host ++ base ≠ "" := by
  intro h
  exact not_slashes_of_host scheme host base (by rw [h]; simp)

/-- The URL of a server goes wrong if it has nothing but slashes. -/
theorem misdirects_iff_of_server {server : Server}
    (hfind : doc.servers.find? (·.url != "") = some server) :
    doc.Misdirects ↔ ∀ c ∈ server.url.toList, c = '/' := by
  obtain ⟨before, after, hservers, hbefore, hurl⟩ := find?_servers_eq_some_iff.1 hfind
  have hdeclares : doc.Declares server.url := .server hservers hbefore hurl
  constructor
  · rintro (⟨hother, hall⟩ | ⟨hnone, -, -, -, -⟩)
    · exact hdeclares.unique hother ▸ hall
    · cases (find?_servers_eq_none_iff.2 hnone).symm.trans hfind
  · exact .slashes hdeclares

/-- What is made up goes wrong if it ends with slashes of its host. -/
theorem misdirects_iff_of_host {host : String} (hservers : ∀ s ∈ doc.servers, s.url = "")
    (hlegacy : doc.dialect = .legacy) (hhost : doc.host = some host) (hne : host ≠ "") :
    doc.Misdirects ↔ host.toList.getLast? = some '/' ∧
      ∀ c ∈ (doc.basePath.getD "").toList, c = '/' := by
  constructor
  · rintro (⟨hother, hall⟩ | ⟨-, -, hother, hslash, hbase⟩)
    · exact absurd (hother.unique (.host hservers hlegacy hhost hne) ▸ hall)
        (not_slashes_of_host _ _ _)
    · obtain rfl := Option.some.inj (hhost.symm.trans hother)
      exact ⟨hslash, hbase⟩
  · exact fun ⟨hslash, hbase⟩ => .host hservers hlegacy hhost hslash hbase

/-- What is found of the URL that a document declares. -/
theorem exists_declares (h : doc.declaredServerUrl? = some url) :
    ∃ written, doc.Declares written ∧ (url = "" ↔ ∀ c ∈ written.toList, c = '/') ∧
      (url = Text.dropEndChar '/' written ∧ url ≠ "" ↔ ¬ doc.Misdirects) := by
  unfold declaredServerUrl? at h
  cases hfind : doc.servers.find? (·.url != "") with
  | some server =>
    rw [hfind] at h
    obtain ⟨before, after, hservers, hbefore, hurl⟩ := find?_servers_eq_some_iff.1 hfind
    obtain rfl := Option.some.inj h
    refine ⟨server.url, .server hservers hbefore hurl, Text.dropEndChar_eq_empty_iff, ?_⟩
    rw [misdirects_iff_of_server hfind, ne_eq, Text.dropEndChar_eq_empty_iff,
      and_iff_right rfl]
  | none =>
    rw [hfind] at h
    have hservers := find?_servers_eq_none_iff.1 hfind
    dsimp only at h
    split at h
    · rename_i host hlegacy hhost
      split at h
      · cases h
      · rename_i hne
        replace hne : host ≠ "" := by simpa using hne
        obtain rfl := Option.some.inj h
        refine ⟨_, .host hservers hlegacy hhost hne,
          iff_of_false (host_ne_empty _ _ _) (not_slashes_of_host _ _ _), ?_⟩
        rw [and_iff_left (host_ne_empty _ _ _), eq_comm, dropEndChar_host_eq_iff hne,
          misdirects_iff_of_host hservers hlegacy hhost hne]
    · cases h

/-- The URL that is given, or else the one that is found with the prefix behind it. -/
theorem serverUrl_ok_cases (h : Survey.serverUrl doc given start = .ok url) :
    (∃ u, given = some u ∧ u ≠ "" ∧ url = u) ∨
      (∀ u, given = some u → u = "") ∧
        ∃ found, doc.declaredServerUrl? = some found ∧ url = found ++ start := by
  unfold Survey.serverUrl at h
  cases hgiven : given.filter (· != "") with
  | some u =>
    rw [hgiven] at h
    obtain ⟨hu, hne⟩ := Option.filter_eq_some_iff.1 hgiven
    exact .inl ⟨u, hu, by simpa using hne, (Except.ok.inj h).symm⟩
  | none =>
    rw [hgiven] at h
    refine .inr ⟨by simpa [Option.filter_eq_none_iff] using hgiven, ?_⟩
    cases hfound : doc.declaredServerUrl? with
    | some found =>
      rw [hfound] at h
      exact ⟨found, rfl, (Except.ok.inj h).symm⟩
    | none =>
      rw [hfound] at h
      cases h

/-- **Where the requests of a document go.**  The resources of a document come with the URL that
they should, if one is given, or if the document does not declare one of the two kinds that are not
treated as they should be.  They come with no URL at all exactly if none is given, there is no
prefix, and the URL that is declared has nothing but slashes. -/
theorem directs_iff (h : doc.resources given start = .ok g) :
    (doc.Directs given start g.serverUrl ↔ (∃ u, given = some u ∧ u ≠ "") ∨ ¬ doc.Misdirects) ∧
    (g.serverUrl = "" ↔ (∀ u, given = some u → u = "") ∧ start = "" ∧
      ∃ written, doc.Declares written ∧ ∀ c ∈ written.toList, c = '/') := by
  obtain ⟨-, -, -, -, hurl, -⟩ := Survey.resources_ok_iff.1 h
  rcases serverUrl_ok_cases hurl with ⟨u, rfl, hne, hu⟩ | ⟨hnone, found, hfound, hu⟩
  · refine ⟨iff_of_true ⟨hu ▸ hne, ?_, ?_⟩ (.inl ⟨u, rfl, hne⟩), iff_of_false (hu ▸ hne) ?_⟩
    · rintro _ ⟨⟩ -
      exact hu
    · exact fun hempty => absurd (hempty u rfl) hne
    · exact fun hempty => hne (hempty.1 u rfl)
  · obtain ⟨written, hdeclares, hempty, hdirects⟩ := exists_declares hfound
    have hgiven : ¬ ∃ u, given = some u ∧ u ≠ "" := fun ⟨u, hu, hne⟩ => hne (hnone u hu)
    rw [or_iff_right hgiven, ← hdirects, hu]
    constructor
    · constructor
      · rintro ⟨-, -, hdeclared⟩
        obtain ⟨written', hdeclares', hne, hurl'⟩ := hdeclared hnone
        obtain rfl := hdeclares.unique hdeclares'
        have hsame := (String.append_left_inj start).1 hurl'
        exact ⟨hsame, hsame ▸ hne⟩
      · rintro ⟨rfl, hne⟩
        refine ⟨fun hall => hne (String.append_eq_empty_iff.1 hall).1, ?_, fun _ => ?_⟩
        · exact fun u hu hne => absurd (hnone u hu) hne
        · exact ⟨written, hdeclares, hne, rfl⟩
    · rw [String.append_eq_empty_iff, hempty]
      constructor
      · exact fun ⟨hall, hstart⟩ => ⟨hnone, hstart, written, hdeclares, hall⟩
      · rintro ⟨-, hstart, written', hdeclares', hall⟩
        exact ⟨hdeclares.unique hdeclares' ▸ hall, hstart⟩

/-- In the document with shelves of books, requests go to the server that it has, and with a URL
that is given they go there. -/
theorem shelves_directs : ∃ g g', shelves.resources none "" = .ok g ∧
    shelves.Directs none "" g.serverUrl ∧ g.serverUrl ≠ "" ∧
    shelves.resources (some "http://other/") "/v1" = .ok g' ∧ g'.serverUrl = "http://other/" := by
  obtain ⟨g, hg, -, -⟩ := shelves_resources
  obtain ⟨g', hg', -⟩ := exists_ok_of_map_toOption (f := ResourceGraph.index)
    (show (shelves.resources (some "http://other/") "/v1").toOption.map _ =
      some [("book", 1), ("shelf", 0)] by decide +kernel)
  have hservers : shelves.servers = [] ++ { url := "http://localhost" } :: [] := rfl
  have hdeclares : shelves.Declares "http://localhost" := .server hservers (by simp) (by decide)
  have hno : ¬ shelves.Misdirects := by
    rintro (⟨hother, hall⟩ | ⟨-, hlegacy, -, -, -⟩)
    · rw [← hdeclares.unique hother] at hall
      exact absurd (hall 'h' (by decide +kernel)) (by decide)
    · exact absurd hlegacy (by decide +kernel)
  have hdirects := (directs_iff hg).1.2 (.inr hno)
  have hgiven := (directs_iff hg').1.2 (.inl ⟨_, rfl, by decide⟩)
  exact ⟨g, g', hg, hdirects, hdirects.somewhere, hg', hgiven.given _ rfl (by decide)⟩

/-- A document whose server is at its root. -/
def rooted : Document where
  openapi := some "3.1.0"
  servers := [{ url := "/" }]

/-- The document whose server is at its root is not refused, and its requests go nowhere. -/
theorem rooted_nowhere : ∃ g, rooted.resources none "" = .ok g ∧ g.serverUrl = "" ∧
    rooted.Declares "/" ∧ ¬ rooted.Directs none "" g.serverUrl := by
  obtain ⟨g, hg, hurl⟩ := exists_ok_of_map_toOption (f := ResourceGraph.serverUrl)
    (show (rooted.resources none "").toOption.map _ = some "" by decide +kernel)
  have hservers : rooted.servers = [] ++ { url := "/" } :: [] := rfl
  have hdeclares : rooted.Declares "/" := .server hservers (by simp) (by decide)
  exact ⟨g, hg, hurl, hdeclares, fun h => h.somewhere hurl⟩

end Document

end ResourceCli
