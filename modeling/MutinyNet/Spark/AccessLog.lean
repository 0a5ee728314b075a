import MutinyNet.Text.Infix

namespace MutinyNet
namespace Spark

open Text

/-!
# The audit of the access log

`audit-spark.sh` looks for calls to the services that are not meant for clients.
It selects the lines with a path of such a service anywhere in them and drops
those with the text of a status 404 anywhere in them.  nginx writes its lines in
the combined format; what a client chooses stands between quotes or is the name
it gave, and everything else is a word without blanks.
-/

abbrev Line := List Char

/-- An entry of the log; nginx escapes quotes and line breaks in what the client
chose, so an entry is one line. -/
structure LogEntry where
  remoteAddr : Line
  remoteUser : Line
  date : Line
  zone : Line
  request : Line
  status : Line
  bodyBytesSent : Line
  httpReferer : Line
  httpUserAgent : Line
  addrWord : ' ' ∉ remoteAddr
  dateWord : ' ' ∉ date
  zoneWord : ' ' ∉ zone
  statusWord : ' ' ∉ status
  bytesWord : ' ' ∉ bodyBytesSent

/-- The combined format. -/
def LogEntry.line (entry : LogEntry) : Line :=
  (entry.remoteAddr ++ [' ']) ++ '-' ::
    ((' ' :: (entry.remoteUser ++ [' '])) ++ '[' ::
      ((entry.date ++ ' ' :: entry.zone) ++ ']' ::
        ([' '] ++ '"' :: (entry.request ++ '"' ::
          ((' ' :: (entry.status ++ ' ' :: (entry.bodyBytesSent ++ [' ']))) ++ '"' ::
            (entry.httpReferer ++ '"' :: ([' '] ++ '"' :: (entry.httpUserAgent ++ '"' :: []))))))))

/-- The services of `PATTERN`. -/
def services : List Line :=
  ["mock.MockService".toList, "spark_internal.SparkInternalService".toList,
    "spark_token.SparkTokenInternalService".toList, "dkg.DKGService".toList,
    "gossip.GossipService".toList]

/-- `grep -E "$PATTERN"`. -/
def matchesPattern (line : Line) : Bool :=
  services.any fun service => decide ('/' :: (service ++ ['/']) <:+: line)

/-- The text that `grep -v` looks for: 404 as a word. -/
def notFound : Line := ['4', '0', '4']

/-- `grep -v ' 404 '`. -/
def withoutNotFound (line : Line) : Bool :=
  ¬ ' ' :: (notFound ++ [' ']) <:+: line

/-- The lines that are reported of a log. -/
def hits (lines : List Line) : List Line :=
  (lines.filter matchesPattern).filter withoutNotFound

/-! ## What should be reported -/

/-- The request is a call of the service: a method, and a path below its name. -/
def Calls (service request : Line) : Prop :=
  Exists fun method : Line => Exists fun rest => ' ' ∉ method ∧
    request = method ++ ' ' :: '/' :: (service ++ '/' :: rest)

/-- A call that reached one of the services. -/
def LogEntry.Suspicious (entry : LogEntry) : Prop :=
  (Exists fun service => service ∈ services ∧ Calls service entry.request) ∧
    entry.status ≠ notFound

/-- No field but the status can be taken for it: 404 is not the number of bytes,
nor a word of what the client chose. -/
structure LogEntry.Unambiguous (entry : LogEntry) : Prop where
  bodyBytesSent : entry.bodyBytesSent ≠ notFound
  remoteUser : ¬ ' ' :: (notFound ++ [' ']) <:+: ' ' :: (entry.remoteUser ++ [' '])
  request : ¬ ' ' :: (notFound ++ [' ']) <:+: entry.request
  httpReferer : ¬ ' ' :: (notFound ++ [' ']) <:+: entry.httpReferer
  httpUserAgent : ¬ ' ' :: (notFound ++ [' ']) <:+: entry.httpUserAgent

/-- A call is selected, whatever else is in its line. -/
theorem matchesPattern_of_calls {entry : LogEntry} {service : Line} (member : service ∈ services)
    (calls : Calls service entry.request) : matchesPattern entry.line = true := by
  rcases calls with ⟨method, rest, -, shape⟩
  apply List.any_eq_true.mpr
  refine ⟨service, member, decide_eq_true ?_⟩
  have inRequest : '/' :: (service ++ ['/']) <:+: entry.request := by
    refine ⟨method ++ [' '], rest, ?_⟩
    rw [shape]
    simp only [List.append_assoc, List.cons_append, List.nil_append]
  have inLine : entry.request <:+: entry.line := by
    have behind : entry.request <:+: entry.request ++ '"' ::
        ((' ' :: (entry.status ++ ' ' :: (entry.bodyBytesSent ++ [' ']))) ++ '"' ::
          (entry.httpReferer ++ '"' :: ([' '] ++ '"' :: (entry.httpUserAgent ++ '"' :: [])))) :=
      (List.prefix_append _ _).isInfix
    have skip : forall {part : Line} {letter : Char} {later : Line},
        entry.request <:+: later -> entry.request <:+: part ++ letter :: later :=
      fun occurs => occurs.trans ((List.suffix_cons _ _).trans (List.suffix_append _ _)).isInfix
    exact skip (skip (skip (skip behind)))
  exact inRequest.trans inLine

/-- A word occurs behind the request as the status or as the number of bytes. -/
theorem isInfix_status_iff (entry : LogEntry) :
    ' ' :: (notFound ++ [' ']) <:+:
        ' ' :: (entry.status ++ ' ' :: (entry.bodyBytesSent ++ [' '])) <->
      notFound = entry.status ∨ notFound = entry.bodyBytesSent := by
  have plain : ' ' ∉ notFound := by decide
  have last : ¬ ' ' :: (notFound ++ [' ']) <:+: [' '] := by decide
  rw [isInfix_words_iff plain entry.statusWord, isInfix_words_iff plain entry.bytesWord]
  simp only [last, or_false]

/-- The text of a status 404 occurs in the line exactly where it occurs in a
field. -/
theorem isInfix_line_iff (entry : LogEntry) :
    ' ' :: (notFound ++ [' ']) <:+: entry.line <->
      ' ' :: (notFound ++ [' ']) <:+: ' ' :: (entry.remoteUser ++ [' ']) ∨
      ' ' :: (notFound ++ [' ']) <:+: entry.request ∨
      (notFound = entry.status ∨ notFound = entry.bodyBytesSent) ∨
      ' ' :: (notFound ++ [' ']) <:+: entry.httpReferer ∨
      ' ' :: (notFound ++ [' ']) <:+: entry.httpUserAgent := by
  have dash : '-' ∉ ' ' :: (notFound ++ [' ']) := by decide
  have opening : '[' ∉ ' ' :: (notFound ++ [' ']) := by decide
  have closing : ']' ∉ ' ' :: (notFound ++ [' ']) := by decide
  have quote : '"' ∉ ' ' :: (notFound ++ [' ']) := by decide
  have address : ¬ ' ' :: (notFound ++ [' ']) <:+: entry.remoteAddr ++ [' '] :=
    not_isInfix_word entry.addrWord (List.not_mem_nil)
  have time : ¬ ' ' :: (notFound ++ [' ']) <:+: entry.date ++ ' ' :: entry.zone :=
    not_isInfix_word entry.dateWord entry.zoneWord
  have blank : ¬ ' ' :: (notFound ++ [' ']) <:+: [' '] := by decide
  have nothing : ¬ ' ' :: (notFound ++ [' ']) <:+: [] := by decide
  unfold LogEntry.line
  rw [isInfix_append_cons_iff dash, isInfix_append_cons_iff opening,
    isInfix_append_cons_iff closing, isInfix_append_cons_iff quote, isInfix_append_cons_iff quote,
    isInfix_append_cons_iff quote, isInfix_append_cons_iff quote, isInfix_append_cons_iff quote,
    isInfix_append_cons_iff quote, isInfix_status_iff]
  simp only [address, time, blank, nothing, false_or, or_false]

/-- A line is dropped exactly if its status is 404 or one of its other fields
can be taken for it. -/
theorem withoutNotFound_iff (entry : LogEntry) :
    withoutNotFound entry.line = true <-> entry.status ≠ notFound ∧ entry.Unambiguous := by
  unfold withoutNotFound
  rw [decide_eq_true_eq, isInfix_line_iff]
  simp only [not_or]
  constructor
  · rintro ⟨remoteUser, request, ⟨status, bodyBytesSent⟩, httpReferer, httpUserAgent⟩
    exact ⟨fun same => status same.symm, fun same => bodyBytesSent same.symm, remoteUser, request,
      httpReferer, httpUserAgent⟩
  · rintro ⟨status, unambiguous⟩
    exact ⟨unambiguous.remoteUser, unambiguous.request, ⟨fun same => status same.symm,
      fun same => unambiguous.bodyBytesSent same.symm⟩, unambiguous.httpReferer,
      unambiguous.httpUserAgent⟩

/-- The audit misses nothing exactly if no entry that it is after has another
field that can be taken for its status. -/
theorem hits_iff (entries : List LogEntry) :
    (forall entry, entry ∈ entries -> entry.Suspicious ->
      entry.line ∈ hits (entries.map LogEntry.line)) <->
    forall entry, entry ∈ entries -> entry.Suspicious -> entry.Unambiguous := by
  have reported : forall entry, entry ∈ entries -> entry.Suspicious ->
      (entry.line ∈ hits (entries.map LogEntry.line) <-> entry.Unambiguous) := by
    rintro entry member ⟨⟨service, listed, calls⟩, found⟩
    unfold hits
    rw [List.mem_filter, List.mem_filter, withoutNotFound_iff]
    constructor
    · rintro ⟨-, -, unambiguous⟩
      exact unambiguous
    · intro unambiguous
      exact ⟨⟨List.mem_map_of_mem member, matchesPattern_of_calls listed calls⟩, found, unambiguous⟩
  constructor
  · intro complete entry member suspicious
    exact (reported entry member suspicious).mp (complete entry member suspicious)
  · intro unambiguous entry member suspicious
    exact (reported entry member suspicious).mpr (unambiguous entry member suspicious)

/-! ## An answer of 404 bytes -/

/-- A call of the mock service that succeeded and was answered with 404 bytes. -/
def mockCall : LogEntry where
  remoteAddr := "203.0.113.9".toList
  remoteUser := ['-']
  date := "10/Mar/2025:13:55:36".toList
  zone := "+0000".toList
  request := "POST /mock.MockService/CleanUpPreimageShare HTTP/2.0".toList
  status := ['2', '0', '0']
  bodyBytesSent := ['4', '0', '4']
  httpReferer := ['-']
  httpUserAgent := "grpc-go/1.60.0".toList
  addrWord := by decide
  dateWord := by decide
  zoneWord := by decide
  statusWord := by decide
  bytesWord := by decide

theorem hidden_call :
    mockCall.Suspicious ∧ mockCall.line ∉ hits ([mockCall].map LogEntry.line) := by
  refine ⟨⟨⟨"mock.MockService".toList, List.mem_cons_self, "POST".toList,
    "CleanUpPreimageShare HTTP/2.0".toList, by decide, by decide⟩, by decide⟩, ?_⟩
  intro reported
  have kept := (withoutNotFound_iff mockCall).mp (List.mem_filter.mp reported).2
  exact kept.2.bodyBytesSent rfl

end Spark
end MutinyNet
