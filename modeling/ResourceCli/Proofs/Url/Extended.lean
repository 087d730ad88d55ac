import ResourceCli.Proofs.Url.Confined

/-!
# URLs below the URL of a server

A URL extends that of a server by some values if it leads to the segments of the server's path and
then to one segment for each value, which is decoded to it, and has no query.

* `exists_read`: whatever values are put behind a server, a URL is read; it extends that of the
  server exactly if the values are confined.
* `eq_of_target`: confined values can be told from the path of the URL that they extend.
-/

namespace ResourceCli.Url

/-- A URL leads below another one: to the segments of that one without the empty one at its end, and
to one segment more for each of some values, which is decoded to the value.  It has no query. -/
structure Extends (base : Url) (values : List String) (u : Url) : Prop where
  /-- The scheme is the same. -/
  scheme : u.scheme = base.scheme
  /-- The host, with what stands beside it, is the same. -/
  authority : u.authority = base.authority
  /-- There is no query. -/
  query : u.query = none
  /-- There is one more segment for each value. -/
  path : ∃ before kept, base.path = .segments (before ++ [""]) ∧
    u.path = .segments (before ++ kept) ∧
    kept.map (fun s => percentDecode s.toList) = values.map Text.utf8Encode

/-- A URL with the segments of confined values behind others. -/
def extended (base : Url) (before values : List String) : Url :=
  { base with
    path := .segments (before ++ values.map fun v => encoded keptInPath v.toList)
    query := none
    fragment := none }

variable {server : String} {base : Url} {values values' : List String}

/-- The path that joined values continue a URL by. -/
theorem continued_path (base : Url) (before values : List String) :
    (base.continued before
        (readable (Text.dropStartChar '/' (Text.join "/" values)).toList)).path =
      .segments (normalFrom before (segmentsRead values)) := by
  rw [Text.dropStartChar, String.toList_ofList]
  rfl

/-- Confined values continue a URL by their segments and nothing else. -/
theorem continued_of_confined (hlength : 2 ≤ values.length) (h : Confined values) (base : Url)
    (before : List String) :
    base.continued before (readable (Text.dropStartChar '/' (Text.join "/" values)).toList) =
      base.extended before.reverse values := by
  have hpath := continued_path base before values
  rw [normalFrom_of_confined hlength h] at hpath
  have htail := ((confined_iff hlength).1 h).1.cutTail_eq
  rw [Text.dropStartChar, String.toList_ofList] at hpath ⊢
  rw [continued] at hpath ⊢
  rw [extended, Url.mk.injEq]
  exact ⟨rfl, rfl, hpath, by rw [htail], by rw [htail]⟩

/-- **Which values extend the URL of a server**: those that stay in their segments.  Behind the same
server, there are always the same segments before those of the values. -/
theorem exists_read (h : read (server ++ "/") = some base)
    (hscheme : base.scheme = "http" ∨ base.scheme = "https") (hq : base.query = none)
    (hf : base.fragment = none) :
    ∃ before, base.path = .segments (before ++ [""]) ∧
      ∀ values : List String, 2 ≤ values.length →
      ∃ u, read (server ++ "/" ++ Text.dropStartChar '/' (Text.join "/" values)) = some u ∧
        (base.Extends values u ↔ Confined values) ∧
        (Confined values → u = base.extended before values) := by
  obtain ⟨before, hpath, hbelow⟩ := read_below h hscheme hq hf
  refine ⟨before.reverse, hpath, fun values hlength => ⟨_, hbelow _, ⟨fun hext => ?_, fun hc => ?_⟩,
    fun hc => continued_of_confined hlength hc base before⟩⟩
  · obtain ⟨before', kept, hbase, hu, hkept⟩ := hext.path
    rw [hpath, Path.segments.injEq, List.append_left_inj] at hbase
    rw [continued_path, ← hbase, Path.segments.injEq] at hu
    exact (kept_iff_confined hlength before).1 ⟨kept, hu, hkept⟩
  · rw [continued_of_confined hlength hc base before]
    exact ⟨rfl, rfl, rfl, before.reverse, _, hpath, rfl, map_percentDecode_encoded hc⟩

/-! ## Values told from the path -/

theorem slash_notMem_percentChar (c : Char) : '/' ∉ percentChar c := by
  have hdigit : ∀ n < 16, Text.upperHexDigit n ≠ '/' := by decide
  intro hmem
  obtain ⟨b, -, hmem⟩ := List.mem_flatMap.1 hmem
  have hb : b.toNat < 256 := b.toNat_lt
  simp only [percentByte, List.mem_cons, List.not_mem_nil, or_false] at hmem
  rcases hmem with hmem | hmem | hmem
  · cases hmem
  · exact hdigit _ (by omega) hmem.symm
  · exact hdigit _ (by omega) hmem.symm

/-- No slash is written for a value without slashes. -/
theorem slash_notMem_encoded {value : String} (h : '/' ∉ value.toList) :
    '/' ∉ (encoded keptInPath value.toList).toList := by
  rw [encoded, String.toList_ofList]
  intro hmem
  obtain ⟨c, hc, hmem⟩ := List.mem_flatMap.1 hmem
  split at hmem
  · exact h (List.mem_singleton.1 hmem ▸ hc)
  · exact slash_notMem_percentChar c hmem

/-- The segments of a path are written one behind the other. -/
theorem toList_text (segments : List String) :
    (Path.segments segments).text.toList = segments.flatMap fun s => '/' :: s.toList := by
  rw [Path.text, String.toList_join, List.flatMap_map]
  exact congrArg (segments.flatMap ·) (funext fun s => String.toList_append)

/-- What is written for confined values can be read off their path. -/
theorem splitAt_encoded (hne : values ≠ []) (h : Confined values) :
    Text.splitAt '/' (Text.join "/" (values.map fun v => encoded keptInPath v.toList)) =
      values.map fun v => encoded keptInPath v.toList := by
  refine Text.splitAt_join (by simpa using hne) fun e he => ?_
  obtain ⟨v, hv, rfl⟩ := List.mem_map.1 he
  refine slash_notMem_encoded fun hmem => ?_
  cases (h.inert v hv).whole '/' hmem

/-- Confined values can be told from what is written for them. -/
theorem eq_of_encoded (h : Confined values) (h' : Confined values')
    (he : (values.map fun v => encoded keptInPath v.toList) =
      values'.map fun v => encoded keptInPath v.toList) : values = values' := by
  have hinj : Function.Injective Text.utf8Encode := fun s t hst =>
    String.toList_injective (bytes_inj hst)
  refine List.map_injective_iff.2 hinj ?_
  rw [← map_percentDecode_encoded h, ← map_percentDecode_encoded h', he]

/-- **Confined values can be told from the target** of a URL that they extend. -/
theorem eq_of_target (hne : values ≠ []) (hne' : values' ≠ []) (h : Confined values)
    (h' : Confined values') (base : Url) (before : List String)
    (ht : (base.extended before values).target = (base.extended before values').target) :
    values = values' := by
  refine eq_of_encoded h h' ?_
  have htext := congrArg String.toList ht
  simp only [target, extended, Option.map_none, Option.getD_none, String.append_empty,
    toList_text, List.flatMap_append] at htext
  have hjoin := List.append_cancel_left htext
  rw [← cons_join (by simpa using hne), ← cons_join (by simpa using hne'), List.cons.injEq,
    String.toList_inj] at hjoin
  rw [← splitAt_encoded hne h, ← splitAt_encoded hne' h', hjoin.2]

end ResourceCli.Url
