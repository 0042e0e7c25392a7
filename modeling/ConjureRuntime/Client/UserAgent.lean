import ConjureRuntime.Foundation.Alphabet
import ConjureRuntime.Service.Http
import Mathlib.Data.List.Basic

/-!
# User agents

A user agent is sent as one line: the agent of the client, the node that it
runs on, and the agents of the libraries it goes through.  The expressions
that names, versions and nodes have to match leave out the letters between
them, so that the line tells them apart.
-/

namespace ConjureRuntime.Client

open ConjureRuntime.Foundation ConjureRuntime.Service RegularExpression

/-! ## Names, versions and nodes -/

def charRange (first last : Char) : List Char :=
  (List.range' first.toNat (last.toNat + 1 - first.toNat)).map Char.ofNat

def letters : List Char := charRange 'a' 'z' ++ charRange 'A' 'Z'

def digits : List Char := charRange '0' '9'

def validNode : RegularExpression Char :=
  oneOf (letters ++ digits) * star (oneOf (letters ++ digits ++ ['.', '-']))

def validName : RegularExpression Char :=
  oneOf letters * star (oneOf (letters ++ digits ++ ['-']))

def validVersion : RegularExpression Char :=
  oneOrMore (oneOf digits) *
    star (char '.' * oneOrMore (oneOf digits)) *
    optional (char '-' * char 'r' * char 'c' * oneOrMore (oneOf digits)) *
    optional (char '-' * oneOrMore (oneOf digits) * char '-' * char 'g' *
      oneOrMore (oneOf (charRange 'a' 'f' ++ digits)))

/-- `Regex::is_match`, of an expression that is anchored at both ends. -/
def isMatch (P : RegularExpression Char) (text : String) : Bool :=
  P.rmatch text.toList

def defaultVersion : String := "0.0.0"

/-! ## Agents -/

inductive Panic where
  | assert (message : String)
  | expect (message : String)
  | unwrap
  deriving DecidableEq, Repr

structure Agent where
  name : String
  version : String
  deriving DecidableEq

namespace Agent

def new (name version : String) : Except Panic Agent :=
  if isMatch validName name then
    .ok ⟨name, if isMatch validVersion version then version
      else defaultVersion⟩
  else .error (.assert ("invalid agent name `" ++ name ++ "`"))

def display (agent : Agent) : String := agent.name ++ "/" ++ agent.version

end Agent

structure UserAgent where
  nodeId : Option String
  primary : Agent
  informational : List Agent
  deriving DecidableEq

namespace UserAgent

def new (primary : Agent) : UserAgent := ⟨none, primary, []⟩

def pushAgent (userAgent : UserAgent) (agent : Agent) : UserAgent :=
  { userAgent with informational := userAgent.informational ++ [agent] }

def setNodeId (userAgent : UserAgent) (nodeId : String) :
    Except Panic UserAgent :=
  if isMatch validNode nodeId then
    .ok { userAgent with nodeId := some nodeId }
  else .error (.assert ("invalid user agent node ID `" ++ nodeId ++ "`"))

def display (userAgent : UserAgent) : String :=
  userAgent.informational.foldl (fun text agent => text ++ " " ++ agent.display)
    (userAgent.primary.display ++
      (userAgent.nodeId.elim "" fun nodeId => " (nodeId:" ++ nodeId ++ ")"))

inductive Reachable : UserAgent → Prop where
  | new {name version primary} (hprimary : Agent.new name version =
      .ok primary) : Reachable (.new primary)
  | pushAgent {userAgent name version agent} (h : Reachable userAgent)
      (hagent : Agent.new name version = .ok agent) :
      Reachable (userAgent.pushAgent agent)
  | setNodeId {userAgent userAgent' nodeId} (h : Reachable userAgent)
      (hnode : userAgent.setNodeId nodeId = .ok userAgent') :
      Reachable userAgent'

end UserAgent

/-! ## What can be made is valid -/

structure Agent.Valid (agent : Agent) : Prop where
  name : isMatch validName agent.name
  version : isMatch validVersion agent.version

theorem isMatch_iff {P : RegularExpression Char} {text : String} :
    isMatch P text = true ↔ text.toList ∈ P.matches' :=
  rmatch_iff_matches' P text.toList

theorem validName_of_letters {text : String} {letter : Char}
    {rest : List Char} (htext : text.toList = letter :: rest)
    (hletter : letter ∈ letters)
    (hrest : rest.all (· ∈ letters ++ digits ++ ['-']) = true) :
    isMatch validName text = true := by
  rw [isMatch_iff, htext]
  exact cons_mem_mul_star hletter (forall_mem_of_all hrest)

theorem validVersion_of_dotted {text : String} (first : List Char)
    (numbers : List (List Char))
    (htext : text.toList =
      first ++ (numbers.map fun number => '.' :: number).flatten)
    (hnumbers : ∀ number ∈ first :: numbers,
      number ≠ [] ∧ number.all (· ∈ digits) = true) :
    isMatch validVersion text = true := by
  have hnumber : ∀ number ∈ first :: numbers,
      number ∈ (oneOrMore (oneOf digits)).matches' := by
    intro number hmem
    obtain ⟨hne, hdigits⟩ := hnumbers number hmem
    exact mem_oneOrMore_oneOf hne (forall_mem_of_all hdigits)
  have hdotted : (numbers.map fun number => '.' :: number).flatten ∈
      (star (char '.' * oneOrMore (oneOf digits))).matches' := by
    refine mem_star fun part hpart => ?_
    obtain ⟨number, hmem, rfl⟩ := List.mem_map.mp hpart
    have hdot : ['.'] ∈ (char '.').matches' := rfl
    exact mem_mul hdot (hnumber number (List.mem_cons_of_mem _ hmem))
  have hfirst := hnumber first List.mem_cons_self
  rw [isMatch_iff, htext]
  exact mem_mul_optional (mem_mul_optional (mem_mul hfirst hdotted) _) _

theorem defaultVersion_valid : isMatch validVersion defaultVersion = true :=
  validVersion_of_dotted ['0'] [['0'], ['0']] rfl (by decide)

theorem Agent.new_of_valid {name version : String}
    (hname : isMatch validName name = true)
    (hversion : isMatch validVersion version = true) :
    Agent.new name version = .ok ⟨name, version⟩ := by
  rw [Agent.new, if_pos hname, if_pos hversion]

theorem Agent.new_valid {name version : String} {agent : Agent}
    (h : Agent.new name version = .ok agent) : agent.Valid := by
  unfold Agent.new at h
  split at h
  · rename_i hname
    cases h
    refine ⟨hname, ?_⟩
    dsimp only
    split
    · rename_i hversion
      exact hversion
    · exact defaultVersion_valid
  · cases h

structure UserAgent.Valid (userAgent : UserAgent) : Prop where
  nodeId : ∀ nodeId, userAgent.nodeId = some nodeId →
    isMatch validNode nodeId
  primary : userAgent.primary.Valid
  informational : ∀ agent ∈ userAgent.informational, agent.Valid

namespace UserAgent

variable {userAgent : UserAgent}

theorem Valid.pushAgent (h : userAgent.Valid) {agent : Agent}
    (hagent : agent.Valid) : (userAgent.pushAgent agent).Valid where
  nodeId := h.nodeId
  primary := h.primary
  informational := by
    intro other hmem
    rcases List.mem_append.mp hmem with hmem | hmem
    · exact h.informational other hmem
    · rw [List.mem_singleton.mp hmem]
      exact hagent

theorem Reachable.valid (h : userAgent.Reachable) : userAgent.Valid := by
  induction h with
  | new hprimary =>
      exact ⟨fun _ hnode => (by cases hnode), Agent.new_valid hprimary,
        fun _ hmem => (by cases hmem)⟩
  | pushAgent _ hagent ih => exact ih.pushAgent (Agent.new_valid hagent)
  | setNodeId _ hnode ih =>
      unfold UserAgent.setNodeId at hnode
      split at hnode
      · rename_i hvalid
        cases hnode
        refine ⟨fun nodeId hsome => ?_, ih.primary, ih.informational⟩
        cases hsome
        exact hvalid
      · cases hnode

end UserAgent

/-! ## Letters -/

def Visible (c : Char) : Prop := 32 ≤ c.toNat ∧ c.toNat < 127

instance (c : Char) : Decidable (Visible c) :=
  inferInstanceAs (Decidable (_ ∧ _))

variable {P : RegularExpression Char} {text : String}

theorem not_mem_of_isMatch (h : isMatch P text = true) {c : Char}
    (hc : c ∉ alphabet P) : c ∉ text.toList :=
  fun hmem => hc (mem_alphabet_of_rmatch h c hmem)

theorem visible_of_isMatch (h : isMatch P text = true)
    (hvisible : (alphabet P).all (fun c => decide (Visible c)) = true) :
    ∀ c ∈ text.toList, Visible c := by
  intro c hmem
  have hletter := mem_alphabet_of_rmatch h c hmem
  exact forall_mem_of_all hvisible c hletter

namespace Agent

variable {agent : Agent}

theorem display_toList (agent : Agent) :
    agent.display.toList =
      agent.name.toList ++ '/' :: agent.version.toList := by
  simp [display]

theorem Valid.slash (h : agent.Valid) :
    '/' ∉ agent.name.toList ∧ '/' ∉ agent.version.toList :=
  ⟨not_mem_of_isMatch h.name (by decide +kernel),
    not_mem_of_isMatch h.version (by decide +kernel)⟩

theorem Valid.space (h : agent.Valid) : ' ' ∉ agent.display.toList := by
  have hname : ' ' ∉ agent.name.toList :=
    not_mem_of_isMatch h.name (by decide +kernel)
  have hversion : ' ' ∉ agent.version.toList :=
    not_mem_of_isMatch h.version (by decide +kernel)
  simp [display_toList, hname, hversion]

theorem Valid.parenthesis (h : agent.Valid) :
    agent.display.toList.head? ≠ some '(' := by
  have hname : '(' ∉ agent.name.toList :=
    not_mem_of_isMatch h.name (by decide +kernel)
  rw [display_toList]
  cases hletters : agent.name.toList with
  | nil => simp
  | cons letter rest =>
      rw [hletters] at hname
      rintro ⟨⟩
      simp at hname

theorem Valid.visible (h : agent.Valid) :
    ∀ c ∈ agent.display.toList, Visible c := by
  have hname := visible_of_isMatch h.name (by decide +kernel)
  have hversion := visible_of_isMatch h.version (by decide +kernel)
  rw [display_toList]
  simp only [List.mem_append, List.mem_cons]
  rintro c (hc | rfl | hc)
  · exact hname c hc
  · decide
  · exact hversion c hc

theorem eq_of_display {other : Agent} (hother : other.Valid)
    (heq : other.display.toList = agent.display.toList) : other = agent := by
  obtain ⟨hname, hversion⟩ := hother.slash
  rw [display_toList, display_toList,
    List.append_cons_inj_of_notMem hname hversion] at heq
  obtain ⟨hname, -, hversion⟩ := heq
  cases agent
  cases other
  congr
  · exact String.toList_inj.mp hname
  · exact String.toList_inj.mp hversion

end Agent

/-! ## The words of a user agent -/

theorem intercalate_cons {α : Type*} (c : α) (word : List α)
    (words : List (List α)) :
    [c].intercalate (word :: words) =
      word ++ (words.map fun other => c :: other).flatten := by
  induction words generalizing word with
  | nil => simp
  | cons other words ih =>
      rw [List.intercalate_cons_cons, ih]
      simp

namespace UserAgent

def nodeWord (nodeId : String) : List Char :=
  '(' :: ("nodeId:" ++ nodeId ++ ")").toList

def words (userAgent : UserAgent) : List (List Char) :=
  userAgent.primary.display.toList ::
    (userAgent.nodeId.toList.map nodeWord ++
      userAgent.informational.map fun agent => agent.display.toList)

theorem foldl_toList (agents : List Agent) (text : String) :
    (agents.foldl (fun text agent => text ++ " " ++ agent.display)
        text).toList =
      text.toList ++
        (agents.map fun agent => ' ' :: agent.display.toList).flatten := by
  induction agents generalizing text with
  | nil => simp
  | cons agent agents ih => simp [ih]

theorem display_toList (userAgent : UserAgent) :
    userAgent.display.toList = [' '].intercalate userAgent.words := by
  rw [display, foldl_toList, words, intercalate_cons]
  cases hnode : userAgent.nodeId with
  | none => simp [Function.comp_def]
  | some nodeId => simp [Function.comp_def, nodeWord]

theorem nodeWord_injective {first second : String}
    (h : nodeWord first = nodeWord second) : first = second := by
  have htexts : ("nodeId:" ++ first ++ ")").toList =
      ("nodeId:" ++ second ++ ")").toList := by
    simpa [nodeWord] using h
  exact String.toList_inj.mp (by simpa using htexts)

variable {userAgent : UserAgent}

theorem Valid.space (h : userAgent.Valid) :
    ∀ word ∈ userAgent.words, ' ' ∉ word := by
  simp only [words, List.mem_cons, List.mem_append, List.mem_map,
    Option.mem_toList]
  rintro word (rfl | ⟨nodeId, hnode, rfl⟩ | ⟨agent, hagent, rfl⟩)
  · exact h.primary.space
  · have hspace : ' ' ∉ nodeId.toList :=
      not_mem_of_isMatch (h.nodeId nodeId hnode) (by decide +kernel)
    simp [nodeWord, hspace]
  · exact (h.informational agent hagent).space

theorem Valid.words_eq {other : UserAgent} (h : userAgent.Valid)
    (hother : other.Valid) (heq : userAgent.display = other.display) :
    userAgent.words = other.words := by
  have hlists := congrArg (fun text : String => text.toList.splitOn ' ') heq
  simp only [display_toList] at hlists
  rwa [List.splitOn_intercalate ' ' h.space (List.cons_ne_nil _ _),
    List.splitOn_intercalate ' ' hother.space (List.cons_ne_nil _ _)]
    at hlists

theorem agents_eq {agents others : List Agent}
    (h : ∀ agent ∈ agents, agent.Valid)
    (heq : agents.map (fun agent => agent.display.toList) =
      others.map fun agent => agent.display.toList) : agents = others := by
  induction agents generalizing others with
  | nil => exact (List.map_eq_nil_iff.mp heq.symm).symm
  | cons agent agents ih =>
      cases others with
      | nil => cases heq
      | cons other others =>
          simp only [List.map_cons, List.cons.injEq] at heq
          obtain ⟨hfirst, hrest⟩ := heq
          rw [Agent.eq_of_display (h agent List.mem_cons_self) hfirst,
            ih (fun later hmem => h later (List.mem_cons_of_mem _ hmem)) hrest]

theorem nodeWord_ne {agents : List Agent} {nodeId : String}
    {rest : List (List Char)} (h : ∀ agent ∈ agents, agent.Valid) :
    agents.map (fun agent => agent.display.toList) ≠
      nodeWord nodeId :: rest := by
  intro heq
  cases agents with
  | nil => cases heq
  | cons agent agents =>
      have hword : agent.display.toList = nodeWord nodeId :=
        (List.cons.inj heq).1
      refine (h agent List.mem_cons_self).parenthesis ?_
      rw [hword]
      rfl

theorem node_and_agents_eq {nodeId nodeId' : Option String}
    {agents others : List Agent} (hagents : ∀ agent ∈ agents, agent.Valid)
    (hothers : ∀ agent ∈ others, agent.Valid)
    (heq : nodeId.toList.map nodeWord ++
        agents.map (fun agent => agent.display.toList) =
      nodeId'.toList.map nodeWord ++
        others.map fun agent => agent.display.toList) :
    nodeId = nodeId' ∧ agents = others := by
  cases nodeId with
  | none =>
      cases nodeId' with
      | none => exact ⟨rfl, agents_eq hagents heq⟩
      | some _ => exact absurd heq (nodeWord_ne hagents)
  | some _ =>
      cases nodeId' with
      | none => exact absurd heq.symm (nodeWord_ne hothers)
      | some _ =>
          simp only [Option.toList_some, List.map_cons, List.map_nil,
            List.cons_append, List.nil_append, List.cons.injEq] at heq
          rw [nodeWord_injective heq.1]
          exact ⟨rfl, agents_eq hagents heq.2⟩

theorem Valid.eq_of_display {other : UserAgent} (h : userAgent.Valid)
    (hother : other.Valid) (heq : userAgent.display = other.display) :
    userAgent = other := by
  have hwords := h.words_eq hother heq
  simp only [words, List.cons.injEq] at hwords
  have hprimary := Agent.eq_of_display h.primary hwords.1
  have hrest :=
    node_and_agents_eq h.informational hother.informational hwords.2
  cases userAgent
  cases other
  simp only at hprimary hrest
  rw [hprimary, hrest.1, hrest.2]

/-! ## The header -/

theorem Valid.visible (h : userAgent.Valid) :
    ∀ c ∈ userAgent.display.toList, Visible c := by
  have hwords : ∀ word ∈ userAgent.words, ∀ c ∈ word, Visible c := by
    simp only [words, List.mem_cons, List.mem_append, List.mem_map,
      Option.mem_toList]
    rintro word (rfl | ⟨nodeId, hnode, rfl⟩ | ⟨agent, hagent, rfl⟩)
    · exact h.primary.visible
    · have hvisible := visible_of_isMatch (h.nodeId nodeId hnode)
        (by decide +kernel)
      have htext : "(nodeId:".toList.all (fun c => decide (Visible c)) =
          true := by decide
      intro c hc
      have hword : nodeWord nodeId =
          "(nodeId:".toList ++ (nodeId.toList ++ [')']) := by
        simp [nodeWord]
      rw [hword] at hc
      simp only [List.mem_append, List.mem_singleton] at hc
      rcases hc with hc | hc | rfl
      · exact forall_mem_of_all htext c hc
      · exact hvisible c hc
      · decide
    · exact (h.informational agent hagent).visible
  rw [display_toList, words, intercalate_cons]
  rw [words] at hwords
  simp only [List.mem_append, List.mem_flatten, List.mem_map]
  rintro c (hc | ⟨word, ⟨other, hother, rfl⟩, hc⟩)
  · exact hwords _ List.mem_cons_self c hc
  · rcases List.mem_cons.mp hc with rfl | hc
    · decide
    · refine hwords other (List.mem_cons_of_mem _ ?_) c hc
      simpa using hother

end UserAgent

/-! ## The layer -/

structure Endpoint where
  service : String
  version : Option String

structure UserAgentService where
  userAgent : UserAgent

namespace UserAgentService

def cargoPkgVersion : String := "7.8.0"

/-- The headers that the inner service is called with; `tryFrom` is
`HeaderValue::try_from`. -/
def call (tryFrom : String → Option (List UInt8)) (service : UserAgentService)
    (endpoint : Option Endpoint) (headers : HeaderMap) :
    Except Panic HeaderMap :=
  match endpoint with
  | none => .error (.expect "Endpoint missing from request extensions")
  | some endpoint => do
      let serviceAgent ←
        Agent.new endpoint.service (endpoint.version.getD "0.0.0")
      let runtimeAgent ← Agent.new "conjure-rust-runtime" cargoPkgVersion
      let userAgent :=
        (service.userAgent.pushAgent serviceAgent).pushAgent runtimeAgent
      match tryFrom userAgent.display with
      | none => .error .unwrap
      | some value => .ok (HeaderMap.insert headers "user-agent" value)

def runtimeAgent : Agent := ⟨"conjure-rust-runtime", cargoPkgVersion⟩

theorem new_runtimeAgent :
    Agent.new "conjure-rust-runtime" cargoPkgVersion = .ok runtimeAgent :=
  Agent.new_of_valid (validName_of_letters rfl (by decide) (by decide))
    (validVersion_of_dotted ['7'] [['8'], ['0']] rfl (by decide))

/-- `HeaderValue::try_from` accepts visible characters. -/
def AcceptsVisible (tryFrom : String → Option (List UInt8)) : Prop :=
  ∀ text : String, (∀ c ∈ text.toList, Visible c) →
    tryFrom text = some text.toUTF8.toList

theorem call_of_agent {tryFrom : String → Option (List UInt8)}
    (htryFrom : AcceptsVisible tryFrom) {service : UserAgentService}
    (hservice : service.userAgent.Reachable) {endpoint : Endpoint}
    {agent : Agent} (hagent : Agent.new endpoint.service
      (endpoint.version.getD "0.0.0") = .ok agent) (headers : HeaderMap) :
    call tryFrom service (some endpoint) headers =
      .ok (HeaderMap.insert headers "user-agent"
        ((service.userAgent.pushAgent agent).pushAgent
          runtimeAgent).display.toUTF8.toList) := by
  have hreachable := (hservice.pushAgent hagent).pushAgent new_runtimeAgent
  have hvalue := htryFrom _ hreachable.valid.visible
  unfold call
  dsimp only
  rw [hagent, new_runtimeAgent]
  dsimp only [bind, Except.bind]
  rw [hvalue]

end UserAgentService

/-- User agents that are rendered alike are alike; what is rendered are visible
characters; so the layer sends the header whenever it has an agent for the
endpoint. -/
theorem user_agents_render_unambiguously
    {tryFrom : String → Option (List UInt8)}
    (htryFrom : UserAgentService.AcceptsVisible tryFrom) :
    (∀ first second : UserAgent, first.Reachable → second.Reachable →
      first.display = second.display → first = second) ∧
    (∀ userAgent : UserAgent, userAgent.Reachable →
      ∀ c ∈ userAgent.display.toList, Visible c) ∧
    ∀ (service : UserAgentService) (endpoint : Endpoint) (agent : Agent)
      (headers : HeaderMap), service.userAgent.Reachable →
      Agent.new endpoint.service (endpoint.version.getD "0.0.0") =
        .ok agent →
      UserAgentService.call tryFrom service (some endpoint) headers =
        .ok (HeaderMap.insert headers "user-agent"
          ((service.userAgent.pushAgent agent).pushAgent
            UserAgentService.runtimeAgent).display.toUTF8.toList) := by
  refine ⟨?_, fun _ h => h.valid.visible, ?_⟩
  · intro first second hfirst hsecond heq
    exact hfirst.valid.eq_of_display hsecond.valid heq
  · intro service endpoint agent headers hservice hagent
    exact UserAgentService.call_of_agent htryFrom hservice hagent headers

def visibleBytes (text : String) : Option (List UInt8) :=
  if text.toList.all (fun c => decide (Visible c)) then
    some text.toUTF8.toList
  else none

theorem visibleBytes_accepts :
    UserAgentService.AcceptsVisible visibleBytes := by
  intro text hvisible
  exact if_pos (List.all_eq_true.mpr fun c hc =>
    decide_eq_true (hvisible c hc))

theorem service_agent_is_sent :
    UserAgentService.call visibleBytes ⟨.new ⟨"foobar", "1.0.0"⟩⟩
        (some ⟨"serviceName", some "2.3.4"⟩) [] =
      .ok [("user-agent",
        "foobar/1.0.0 serviceName/2.3.4 conjure-rust-runtime/7.8.0".toUTF8
          |>.toList)] := by
  have hprimary : Agent.new "foobar" "1.0.0" = .ok ⟨"foobar", "1.0.0"⟩ :=
    Agent.new_of_valid (validName_of_letters rfl (by decide) (by decide))
      (validVersion_of_dotted ['1'] [['0'], ['0']] rfl (by decide))
  have hagent : Agent.new "serviceName" "2.3.4" =
      .ok ⟨"serviceName", "2.3.4"⟩ :=
    Agent.new_of_valid (validName_of_letters rfl (by decide) (by decide))
      (validVersion_of_dotted ['2'] [['3'], ['4']] rfl (by decide))
  have hdisplay : (((UserAgent.new ⟨"foobar", "1.0.0"⟩).pushAgent
      ⟨"serviceName", "2.3.4"⟩).pushAgent
        UserAgentService.runtimeAgent).display =
      "foobar/1.0.0 serviceName/2.3.4 conjure-rust-runtime/7.8.0" := by
    rw [← String.toList_inj]
    simp [UserAgent.display, UserAgent.pushAgent, UserAgent.new,
      Agent.display, UserAgentService.runtimeAgent,
      UserAgentService.cargoPkgVersion]
  rw [(user_agents_render_unambiguously visibleBytes_accepts).2.2
    ⟨.new ⟨"foobar", "1.0.0"⟩⟩ ⟨"serviceName", some "2.3.4"⟩ _ []
    (.new hprimary) hagent, hdisplay]
  rfl

end ConjureRuntime.Client
