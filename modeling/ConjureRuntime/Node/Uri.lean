import ConjureRuntime.Foundation.Alphabet
import Mathlib.Data.List.Basic

/-!
# The URI of a node

The URI of a request is put behind the base URL of its node as a text, and the
text is parsed again.  What of the base URL comes after its path then takes
the path of the request with it.
-/

namespace ConjureRuntime.Node

open ConjureRuntime.Foundation

/-- `http::Uri`. -/
structure Uri where
  scheme : Option String
  authority : Option String
  path : String
  query : Option String
  deriving DecidableEq, Repr

def Uri.display (uri : Uri) : String :=
  uri.scheme.elim "" (· ++ "://") ++ uri.authority.elim "" id ++ uri.path ++
    uri.query.elim "" ("?" ++ ·)

inductive UriPanic where
  | debugAssert
  | expect (message : String)
  | unwrap
  deriving DecidableEq, Repr

def withoutTrailingSlash (text : String) : String :=
  if text.toList.getLast? = some '/' then String.ofList text.toList.dropLast
  else text

/-- The URI that the inner service is called with; `url` is the text of the
node's URL, and `parse` is `str::parse::<http::Uri>`. -/
def NodeUriService.call (parse : String → Option Uri) (url : Option String)
    (uri : Uri) : Except UriPanic Uri :=
  if uri.scheme = none ∧ uri.authority = none ∧
      uri.path.toList.head? = some '/' then
    match url with
    | none => .error (.expect "should have a Node extension")
    | some url =>
        match parse (withoutTrailingSlash url ++ uri.display) with
        | some uri => .ok uri
        | none => .error .unwrap
  else .error .debugAssert

/-! ## URLs and requests -/

/-- The parts of a `Url` with the scheme of HTTP, none of which has a letter
that ends it. -/
structure UrlParts where
  scheme : String
  authority : String
  path : String
  query : Option String
  fragment : Option String
  scheme_eq : scheme = "http" ∨ scheme = "https"
  authority_ends : ∀ c ∈ authority.toList, c ≠ '/' ∧ c ≠ '?' ∧ c ≠ '#'
  path_begins : path.toList.head? = some '/'
  path_ends : ∀ c ∈ path.toList, c ≠ '?' ∧ c ≠ '#'
  query_ends : ∀ query', query = some query' → '#' ∉ query'.toList

namespace UrlParts

/-- `Url::as_str`. -/
def asStr (url : UrlParts) : String :=
  url.scheme ++ "://" ++ url.authority ++ url.path ++
    url.query.elim "" ("?" ++ ·) ++ url.fragment.elim "" ("#" ++ ·)

/-- The URL as a URI, which has no fragment. -/
def uri (url : UrlParts) : Uri :=
  ⟨some url.scheme, some url.authority, url.path, url.query⟩

def join (url : UrlParts) (uri : Uri) : Uri :=
  ⟨some url.scheme, some url.authority,
    withoutTrailingSlash url.path ++ uri.path, uri.query⟩

end UrlParts

/-- What `http::Uri` takes for an authority, which characters it takes in a
path and in a query, and how long a URI may be. -/
structure Grammar where
  authority : String → Prop
  pathChar : Char → Prop
  queryChar : Char → Prop
  maxLen : Nat

structure Grammar.Accepts (grammar : Grammar) (url : UrlParts) : Prop where
  authority : grammar.authority url.authority
  path : ∀ c ∈ url.path.toList, grammar.pathChar c
  query : ∀ query, url.query = some query →
    ∀ c ∈ query.toList, grammar.queryChar c

/-- `http::Uri` splits a text where the parts of a URL end, and leaves the
fragment out. -/
def Parses (grammar : Grammar) (parse : String → Option Uri) : Prop :=
  ∀ (url : UrlParts) (uri : Uri), url.asStr.utf8ByteSize ≤ grammar.maxLen →
    (parse url.asStr = some uri ↔ grammar.Accepts url ∧ uri = url.uri)

structure OriginForm (grammar : Grammar) (uri : Uri) : Prop where
  scheme : uri.scheme = none
  authority : uri.authority = none
  begins : uri.path.toList.head? = some '/'
  path : ∀ c ∈ uri.path.toList, grammar.pathChar c ∧ c ≠ '?' ∧ c ≠ '#'
  query : ∀ query, uri.query = some query →
    ∀ c ∈ query.toList, grammar.queryChar c ∧ c ≠ '#'

/-! ## A parser of URIs -/

def splitUri (text : String) : Uri :=
  let scheme := text.toList.takeWhile (· ≠ ':')
  let rest := text.toList.drop (scheme.length + 3)
  let authority := rest.takeWhile (· ≠ '/')
  let rest := rest.drop authority.length
  let path := rest.takeWhile (fun c => c ≠ '?' ∧ c ≠ '#')
  let rest := rest.drop path.length
  let query := (rest.drop 1).takeWhile (· ≠ '#')
  ⟨some (String.ofList scheme), some (String.ofList authority),
    String.ofList path,
    if rest.head? = some '?' then some (String.ofList query) else none⟩

def visibleChar (c : Char) : Bool := '!' ≤ c && c ≤ '~'

def visible : Grammar where
  authority := fun authority =>
    authority ≠ "" ∧ authority.toList.all visibleChar = true
  pathChar := (visibleChar · = true)
  queryChar := (visibleChar · = true)
  maxLen := 65534

def parseVisible (text : String) : Option Uri :=
  let uri := splitUri text
  let shown := fun part : String => part.toList.all visibleChar
  if text.utf8ByteSize ≤ 65534 ∧ uri.authority ≠ some "" ∧
      uri.authority.all shown ∧ shown uri.path ∧ uri.query.all shown then
    some uri
  else none

theorem takeWhile_stop {p : Char → Bool} {l r : List Char}
    (hl : ∀ c ∈ l, p c = true) (hr : ∀ c ∈ r.head?, p c = false) :
    (l ++ r).takeWhile p = l := by
  rw [List.takeWhile_append_of_pos hl]
  cases r with
  | nil => simp
  | cons c r => simp [hr c rfl]

def UrlParts.queryText (url : UrlParts) : List Char :=
  url.query.elim [] ('?' :: ·.toList)

def UrlParts.fragmentText (url : UrlParts) : List Char :=
  url.fragment.elim [] ('#' :: ·.toList)

theorem UrlParts.asStr_toList (url : UrlParts) :
    url.asStr.toList = url.scheme.toList ++ (':' :: '/' :: '/' ::
      (url.authority.toList ++ (url.path.toList ++
        (url.queryText ++ url.fragmentText)))) := by
  unfold asStr queryText fragmentText
  cases url.query <;> cases url.fragment <;> simp

theorem UrlParts.queryText_stop (url : UrlParts) :
    ∀ c ∈ (url.queryText ++ url.fragmentText).head?, c = '?' ∨ c = '#' := by
  unfold queryText fragmentText
  cases url.query <;> cases url.fragment <;> simp

theorem UrlParts.takeWhile_scheme (url : UrlParts) (r : List Char) :
    (url.scheme.toList ++ ':' :: r).takeWhile (· ≠ ':') =
      url.scheme.toList := by
  apply takeWhile_stop
  · apply List.all_eq_true.mp
    obtain hscheme | hscheme := url.scheme_eq <;> rw [hscheme] <;> decide
  · simp

theorem UrlParts.queryText_eq (url : UrlParts) :
    (if (url.queryText ++ url.fragmentText).head? = some '?' then
      some (String.ofList
        (((url.queryText ++ url.fragmentText).drop 1).takeWhile (· ≠ '#')))
      else none) = url.query := by
  have hfragment : ∀ c ∈ url.fragmentText.head?, decide (c ≠ '#') = false := by
    unfold fragmentText
    cases url.fragment <;> simp
  cases hquery : url.query with
  | none =>
      have htext : url.queryText = [] := by simp [queryText, hquery]
      rw [htext, List.nil_append, if_neg]
      intro hmark
      have := hfragment _ hmark
      simp at this
  | some query =>
      have htext : url.queryText = '?' :: query.toList := by
        simp [queryText, hquery]
      have hchars : ∀ c ∈ query.toList, decide (c ≠ '#') = true := by
        intro c hc
        refine decide_eq_true ?_
        rintro rfl
        exact url.query_ends query hquery hc
      rw [htext, List.cons_append, List.head?_cons, if_pos rfl, List.drop_one,
        List.tail_cons, takeWhile_stop hchars hfragment, String.ofList_toList]

theorem splitUri_asStr (url : UrlParts) : splitUri url.asStr = url.uri := by
  have hauthority : ∀ r, (url.authority.toList ++
      (url.path.toList ++ r)).takeWhile (· ≠ '/') = url.authority.toList := by
    intro r
    apply takeWhile_stop
    · intro c hc
      exact decide_eq_true (url.authority_ends c hc).1
    · intro c hc
      rw [List.head?_append, url.path_begins] at hc
      cases hc
      rfl
  have hpath : (url.path.toList ++
      (url.queryText ++ url.fragmentText)).takeWhile
        (fun c => c ≠ '?' ∧ c ≠ '#') = url.path.toList := by
    apply takeWhile_stop
    · intro c hc
      exact decide_eq_true (url.path_ends c hc)
    · intro c hc
      obtain rfl | rfl := url.queryText_stop c hc <;> rfl
  have hdrop : ∀ l r : List Char, (l ++ ':' :: '/' :: '/' :: r).drop
      (l.length + 3) = r := by
    intro l r
    rw [← List.drop_drop, List.drop_left]
    rfl
  unfold splitUri UrlParts.uri
  simp only [url.asStr_toList, url.takeWhile_scheme, hdrop, hauthority,
    List.drop_left, hpath, url.queryText_eq, String.ofList_toList]

theorem accepts_visible_iff (url : UrlParts) :
    visible.Accepts url ↔ url.uri.authority ≠ some "" ∧
      url.uri.authority.all (·.toList.all visibleChar) = true ∧
      url.uri.path.toList.all visibleChar = true ∧
      url.uri.query.all (·.toList.all visibleChar) = true := by
  have hquery : url.query.all (·.toList.all visibleChar) = true ↔
      ∀ query, url.query = some query →
        ∀ c ∈ query.toList, visibleChar c = true := by
    cases url.query <;> simp
  constructor
  · rintro ⟨⟨hne, hauthority⟩, hpath, haccepted⟩
    exact ⟨fun h => hne (Option.some.inj h), hauthority,
      List.all_eq_true.mpr hpath, hquery.mpr haccepted⟩
  · rintro ⟨hne, hauthority, hpath, haccepted⟩
    exact ⟨⟨fun h => hne (congrArg some h), hauthority⟩,
      List.all_eq_true.mp hpath, hquery.mp haccepted⟩

theorem parses_visible : Parses visible parseVisible := by
  intro url uri hlen
  have hlen : url.asStr.utf8ByteSize ≤ 65534 := hlen
  unfold parseVisible
  rw [splitUri_asStr, Option.ite_none_right_eq_some, Option.some.injEq,
    accepts_visible_iff, eq_comm (a := uri)]
  exact and_congr_left fun _ => ⟨And.right, .intro hlen⟩

/-! ## Trailing slashes -/

theorem ne_empty_of_begins {text : String} {c : Char}
    (h : text.toList.head? = some c) : text ≠ "" := by
  rintro rfl
  simp at h

theorem withoutTrailingSlash_of_not {text : String}
    (h : text.toList.getLast? ≠ some '/') : withoutTrailingSlash text = text :=
  if_neg h

@[simp] theorem withoutTrailingSlash_slash (left : String) :
    withoutTrailingSlash (left ++ "/") = left := by
  unfold withoutTrailingSlash
  simp

theorem withoutTrailingSlash_cases (text : String) :
    (text.toList.getLast? ≠ some '/' ∧ withoutTrailingSlash text = text) ∨
      text = withoutTrailingSlash text ++ "/" := by
  by_cases h : text.toList.getLast? = some '/'
  · right
    obtain ⟨left, hleft⟩ := List.getLast?_eq_some_iff.mp h
    have htext : text = String.ofList left ++ "/" := by
      apply String.toList_injective
      simp [hleft]
    rw [htext, withoutTrailingSlash_slash]
  · exact .inl ⟨h, withoutTrailingSlash_of_not h⟩

theorem withoutTrailingSlash_append {left right : String} (h : right ≠ "") :
    withoutTrailingSlash (left ++ right) =
      left ++ withoutTrailingSlash right := by
  obtain ⟨hlast, hright⟩ | hright := withoutTrailingSlash_cases right
  · rw [hright]
    apply withoutTrailingSlash_of_not
    have hne : right.toList ≠ [] := by simpa using h
    rw [String.toList_append, List.getLast?_append_of_ne_nil _ hne]
    exact hlast
  · rw [hright, ← String.append_assoc, withoutTrailingSlash_slash,
      withoutTrailingSlash_slash]

theorem withoutTrailingSlash_mark {mark : Char} (h : mark ≠ '/')
    (left text : String) :
    withoutTrailingSlash (left ++ (mark.toString ++ text)) =
      left ++ (mark.toString ++ withoutTrailingSlash text) := by
  by_cases htext : text = ""
  · subst htext
    apply withoutTrailingSlash_of_not
    simp [h]
  · rw [← String.append_assoc, withoutTrailingSlash_append htext,
      String.append_assoc]

theorem mem_of_mem_withoutTrailingSlash {text : String} {c : Char}
    (h : c ∈ (withoutTrailingSlash text).toList) : c ∈ text.toList := by
  obtain ⟨-, htext⟩ | htext := withoutTrailingSlash_cases text
  · rwa [htext] at h
  · rw [htext, String.toList_append]
    exact List.mem_append_left _ h

theorem mem_withoutTrailingSlash_or {text : String} {c : Char}
    (h : c ∈ text.toList) :
    c ∈ (withoutTrailingSlash text).toList ∨ c = '/' := by
  obtain ⟨-, htext⟩ | htext := withoutTrailingSlash_cases text
  · exact .inl (by rwa [htext])
  · rw [htext, String.toList_append, List.mem_append] at h
    simpa using h

theorem withoutTrailingSlash_append_eq_iff {text right : String}
    (h : right ≠ "") :
    withoutTrailingSlash text ++ right = text ↔
      text.toList.getLast? = some '/' ∧ right = "/" := by
  obtain ⟨hlast, htext⟩ | htext := withoutTrailingSlash_cases text
  · rw [htext]
    constructor
    · intro heq
      exact absurd (by simpa using heq) h
    · intro hslash
      exact absurd hslash.1 hlast
  · have hlast : text.toList.getLast? = some '/' := by
      rw [htext]
      simp
    constructor
    · intro heq
      refine ⟨hlast, ?_⟩
      have hright := heq.trans htext
      simpa using hright
    · rintro ⟨-, rfl⟩
      exact htext.symm

/-! ## Where a request is put -/

section Join

variable {grammar : Grammar} {parse : String → Option Uri} {base : UrlParts}
  {uri : Uri}

namespace OriginForm

theorem display_eq (h : OriginForm grammar uri) :
    uri.display = uri.path ++ uri.query.elim "" ("?" ++ ·) := by
  unfold Uri.display
  rw [h.scheme, h.authority]
  simp

theorem slash_mem_path (h : OriginForm grammar uri) : '/' ∈ uri.path.toList :=
  List.mem_of_head? h.begins

theorem hash_not_mem_query (h : OriginForm grammar uri) {query : String}
    (hquery : uri.query = some query) : '#' ∉ query.toList :=
  fun hmem => (h.query query hquery _ hmem).2 rfl

theorem hash_not_mem_display (h : OriginForm grammar uri) :
    '#' ∉ uri.display.toList := by
  rw [h.display_eq, String.toList_append, List.mem_append, not_or]
  refine ⟨fun hmem => (h.path _ hmem).2.2 rfl, ?_⟩
  cases hquery : uri.query with
  | none => simp
  | some query => simpa using h.hash_not_mem_query hquery

end OriginForm

namespace UrlParts

theorem join_begins (base : UrlParts) (h : OriginForm grammar uri) :
    (withoutTrailingSlash base.path ++ uri.path).toList.head? = some '/' := by
  rw [String.toList_append]
  obtain ⟨-, hpath⟩ | hpath := withoutTrailingSlash_cases base.path
  · rw [hpath, List.head?_append, base.path_begins]
    rfl
  · have hbegins := base.path_begins
    rw [hpath, String.toList_append] at hbegins
    cases hleft : (withoutTrailingSlash base.path).toList with
    | nil => exact h.begins
    | cons c rest =>
        rw [hleft] at hbegins
        exact hbegins

theorem join_ends (base : UrlParts) (h : OriginForm grammar uri) :
    ∀ c ∈ (withoutTrailingSlash base.path ++ uri.path).toList,
      c ≠ '?' ∧ c ≠ '#' := by
  intro c hc
  rw [String.toList_append, List.mem_append] at hc
  obtain hc | hc := hc
  · exact base.path_ends c (mem_of_mem_withoutTrailingSlash hc)
  · exact (h.path c hc).2

def atPath (base : UrlParts) (uri : Uri) (h : OriginForm grammar uri) :
    UrlParts :=
  { base with
    path := withoutTrailingSlash base.path ++ uri.path
    query := uri.query
    fragment := none
    path_begins := base.join_begins h
    path_ends := base.join_ends h
    query_ends := fun _ => h.hash_not_mem_query }

def atQuery (base : UrlParts) (query : String) (uri : Uri)
    (h : OriginForm grammar uri) (hquery : base.query = some query) :
    UrlParts :=
  { base with
    query := some (withoutTrailingSlash query ++ uri.display)
    fragment := none
    query_ends := by
      rintro - ⟨⟩ hmem
      rw [String.toList_append, List.mem_append] at hmem
      obtain hmem | hmem := hmem
      · exact base.query_ends query hquery
          (mem_of_mem_withoutTrailingSlash hmem)
      · exact h.hash_not_mem_display hmem }

def atFragment (base : UrlParts) (fragment : String) (uri : Uri) : UrlParts :=
  { base with
    fragment := some (withoutTrailingSlash fragment ++ uri.display) }

theorem atPath_uri (h : OriginForm grammar uri) :
    (base.atPath uri h).uri = base.join uri := rfl

theorem asStr_atPath (h : OriginForm grammar uri) (hquery : base.query = none)
    (hfragment : base.fragment = none) :
    withoutTrailingSlash base.asStr ++ uri.display =
      (base.atPath uri h).asStr := by
  have hpath : base.path ≠ "" := ne_empty_of_begins base.path_begins
  have hbase : base.asStr =
      base.scheme ++ "://" ++ base.authority ++ base.path := by
    simp [asStr, hquery, hfragment]
  rw [hbase, withoutTrailingSlash_append hpath, h.display_eq]
  simp [asStr, atPath, String.append_assoc]

theorem asStr_atQuery (h : OriginForm grammar uri) {query : String}
    (hquery : base.query = some query) (hfragment : base.fragment = none) :
    withoutTrailingSlash base.asStr ++ uri.display =
      (base.atQuery query uri h hquery).asStr := by
  have hbase : base.asStr = base.scheme ++ "://" ++ base.authority ++
      base.path ++ ('?'.toString ++ query) := by
    simp [asStr, hquery, hfragment]
  rw [hbase, withoutTrailingSlash_mark (by decide)]
  simp [asStr, atQuery, String.append_assoc]

theorem asStr_atFragment {fragment : String}
    (hfragment : base.fragment = some fragment) :
    withoutTrailingSlash base.asStr ++ uri.display =
      (base.atFragment fragment uri).asStr := by
  have hbase : base.asStr = base.scheme ++ "://" ++ base.authority ++
      base.path ++ base.query.elim "" ("?" ++ ·) ++
        ('#'.toString ++ fragment) := by
    simp [asStr, hfragment]
  rw [hbase, withoutTrailingSlash_mark (by decide)]
  simp [asStr, atFragment, String.append_assoc]

end UrlParts

/-! ## What is parsed -/

theorem NodeUriService.call_eq_ok_iff (h : OriginForm grammar uri)
    {url : String} {result : Uri} :
    NodeUriService.call parse (some url) uri = .ok result ↔
      parse (withoutTrailingSlash url ++ uri.display) = some result := by
  unfold NodeUriService.call
  rw [if_pos ⟨h.scheme, h.authority, h.begins⟩]
  cases hparse : parse (withoutTrailingSlash url ++ uri.display) with
  | none => simp [hparse]
  | some parsed => simp [hparse]

theorem accepts_atPath (h : OriginForm grammar uri) :
    grammar.Accepts (base.atPath uri h) ↔ grammar.authority base.authority ∧
      ∀ c ∈ base.path.toList, grammar.pathChar c := by
  constructor
  · intro haccepts
    refine ⟨haccepts.authority, ?_⟩
    intro c hc
    obtain hc | rfl := mem_withoutTrailingSlash_or hc
    · apply haccepts.path
      exact String.toList_append ▸ List.mem_append_left _ hc
    · exact (h.path _ h.slash_mem_path).1
  · rintro ⟨hauthority, hpath⟩
    refine ⟨hauthority, ?_, ?_⟩
    · intro c hc
      have hc : c ∈ (withoutTrailingSlash base.path ++ uri.path).toList := hc
      rw [String.toList_append, List.mem_append] at hc
      obtain hc | hc := hc
      · exact hpath c (mem_of_mem_withoutTrailingSlash hc)
      · exact (h.path c hc).1
    · intro query hquery c hc
      exact (h.query query hquery c hc).1

theorem join_ne_atQuery (h : OriginForm grammar uri) {query : String}
    (hquery : base.query = some query) :
    base.join uri ≠ (base.atQuery query uri h hquery).uri := by
  intro heq
  have hsome : uri.query = some (withoutTrailingSlash query ++ uri.display) :=
    congrArg Uri.query heq
  rw [h.display_eq] at hsome
  cases hrequest : uri.query with
  | none => simp [hrequest] at hsome
  | some requestQuery =>
      have hlength : requestQuery.length = (withoutTrailingSlash query ++
          (uri.path ++ ("?" ++ requestQuery))).length := by
        simpa [hrequest] using congrArg (Option.elim · 0 String.length) hsome
      have hmark : "?".length = 1 := rfl
      simp only [String.length_append, hmark] at hlength
      omega

theorem join_eq_atFragment_iff (h : OriginForm grammar uri)
    {fragment : String} :
    base.join uri = (base.atFragment fragment uri).uri ↔
      base.path.toList.getLast? = some '/' ∧ uri.path = "/" ∧
        base.query = uri.query := by
  have hparts : base.join uri = (base.atFragment fragment uri).uri ↔
      withoutTrailingSlash base.path ++ uri.path = base.path ∧
        uri.query = base.query := by
    simp [UrlParts.join, UrlParts.uri, UrlParts.atFragment]
  have hpath : uri.path ≠ "" := ne_empty_of_begins h.begins
  rw [hparts, withoutTrailingSlash_append_eq_iff hpath, and_assoc,
    eq_comm (a := uri.query)]

/-- The request is joined with the base URL exactly when nothing comes after
the path of the base URL, or when the request says nothing that the base URL
does not say. -/
theorem joined_uri_iff (hparse : Parses grammar parse)
    (h : OriginForm grammar uri)
    (hlen : (withoutTrailingSlash base.asStr ++ uri.display).utf8ByteSize ≤
      grammar.maxLen) :
    NodeUriService.call parse (some base.asStr) uri = .ok (base.join uri) ↔
      grammar.authority base.authority ∧
      (∀ c ∈ base.path.toList, grammar.pathChar c) ∧
      ((base.query = none ∧ base.fragment = none) ∨
        (base.fragment ≠ none ∧ base.path.toList.getLast? = some '/' ∧
          uri.path = "/" ∧ base.query = uri.query)) := by
  rw [NodeUriService.call_eq_ok_iff h]
  cases hfragment : base.fragment with
  | some fragment =>
      rw [UrlParts.asStr_atFragment hfragment] at hlen ⊢
      rw [hparse _ _ hlen, join_eq_atFragment_iff h]
      constructor
      · rintro ⟨haccepts, hcorner⟩
        exact ⟨haccepts.authority, haccepts.path, .inr ⟨by simp, hcorner⟩⟩
      · rintro ⟨hauthority, hpath, ⟨-, hnone⟩ | ⟨-, hcorner⟩⟩
        · cases hnone
        refine ⟨⟨hauthority, hpath, ?_⟩, hcorner⟩
        intro query hquery c hc
        exact (h.query query (hcorner.2.2.symm.trans hquery) c hc).1
  | none =>
      cases hquery : base.query with
      | some query =>
          rw [UrlParts.asStr_atQuery h hquery hfragment] at hlen ⊢
          rw [hparse _ _ hlen]
          simp [join_ne_atQuery h hquery]
      | none =>
          rw [UrlParts.asStr_atPath h hquery hfragment] at hlen ⊢
          rw [hparse _ _ hlen, accepts_atPath h, UrlParts.atPath_uri]
          simp

end Join

/-! ## Requests of two base URLs -/

def foobarUrl : UrlParts where
  scheme := "https"
  authority := "foobar.fizz:1234"
  path := "/foo/bar"
  query := none
  fragment := none
  scheme_eq := by decide
  authority_ends := forall_mem_of_all (by decide)
  path_begins := by decide
  path_ends := forall_mem_of_all (by decide)
  query_ends := by rintro _ ⟨⟩

def helloUri : Uri := ⟨none, none, "/fizz/buzz", some "hello=true"⟩

theorem helloUri_originForm : OriginForm visible helloUri where
  scheme := rfl
  authority := rfl
  begins := by decide
  path := by
    have hpath : ∀ c ∈ helloUri.path.toList,
        visibleChar c = true ∧ c ≠ '?' ∧ c ≠ '#' :=
      forall_mem_of_all (by decide)
    exact hpath
  query := by
    rintro - ⟨⟩
    have hquery : ∀ c ∈ "hello=true".toList,
        visibleChar c = true ∧ c ≠ '#' := forall_mem_of_all (by decide)
    exact hquery

theorem request_joined_behind_path :
    NodeUriService.call parseVisible (some foobarUrl.asStr) helloUri =
      .ok ⟨some "https", some "foobar.fizz:1234", "/foo/bar/fizz/buzz",
        some "hello=true"⟩ :=
  (joined_uri_iff parses_visible helloUri_originForm (by decide)).mpr
    ⟨⟨by decide, by decide⟩, List.all_eq_true.mp (by decide),
      .inl ⟨rfl, rfl⟩⟩

def tenantUrl : UrlParts :=
  { foobarUrl with
    query := some "tenant=a"
    query_ends := by
      rintro - ⟨⟩
      decide }

/-- The path of the request becomes a part of the query. -/
theorem request_swallowed_by_query :
    Parses visible parseVisible ∧ OriginForm visible helloUri ∧
    NodeUriService.call parseVisible (some tenantUrl.asStr) helloUri =
      .ok ⟨some "https", some "foobar.fizz:1234", "/foo/bar",
        some "tenant=a/fizz/buzz?hello=true"⟩ ∧
    NodeUriService.call parseVisible (some tenantUrl.asStr) helloUri ≠
      .ok (tenantUrl.join helloUri) :=
  ⟨parses_visible, helloUri_originForm, by decide, by decide⟩

end ConjureRuntime.Node
