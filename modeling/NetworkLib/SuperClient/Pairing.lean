import NetworkLib.SuperClient.ScenarioEngine

/-! # Sends with their expects

The steps of a scenario send texts and expect them back, the first one first (`Paired`). They are
**unmistakable** if there is a send between any two expects, and what an expect may find instead of
its text contains it. Where all replies are expected this leaves one order: every text is expected
right after it has been sent (`unmistakable_iff_oneByOne`). -/

namespace NetworkLib.ScenarioEngine

/-! ## Sends and expects -/

/-- The texts that are sent. -/
def sent (cs : List Command) : List Bytes :=
  cs.filterMap fun c => match c with
    | .send data => some data
    | _ => none

/-- The texts that are expected. -/
def expected (cs : List Command) : List Bytes :=
  cs.filterMap fun c => match c with
    | .expect data => some data
    | _ => none

/-- The texts that are sent and not expected yet. -/
def unexpected (cs : List Command) : List Bytes := (sent cs).drop (expected cs).length

/-- Sends and expects, where the `i`-th expect comes after the `i`-th send and expects its text. -/
structure Paired (cs : List Command) : Prop where
  plain : ∀ c ∈ cs, (∃ data, c = .send data) ∨ ∃ data, c = .expect data
  matched : ∀ (front : List Command) (data : Bytes) (back : List Command),
    cs = front ++ .expect data :: back → (sent front)[(expected front).length]? = some data

/-- There is a send between any two expects, and the text of every expect is contained in all texts
from its own on that are sent in front of it. -/
structure Unmistakable (cs : List Command) : Prop where
  apart : ∀ (front : List Command) (data data' : Bytes) (back : List Command),
    cs ≠ front ++ .expect data :: .expect data' :: back
  contained : ∀ (front : List Command) (data : Bytes) (back : List Command),
    cs = front ++ .expect data :: back → ∀ text ∈ unexpected front, data <:+: text

variable {front back body : List Command} {data : Bytes}

@[simp] theorem sent_append (cs cs' : List Command) : sent (cs ++ cs') = sent cs ++ sent cs' :=
  List.filterMap_append

@[simp] theorem expected_append (cs cs' : List Command) :
    expected (cs ++ cs') = expected cs ++ expected cs' := List.filterMap_append

@[simp] theorem sent_send (data : Bytes) : sent [.send data] = [data] := rfl

@[simp] theorem sent_expect (data : Bytes) : sent [.expect data] = [] := rfl

@[simp] theorem expected_send (data : Bytes) : expected [.send data] = [] := rfl

@[simp] theorem expected_expect (data : Bytes) : expected [.expect data] = [data] := rfl

/-- The front of paired commands is paired. -/
theorem Paired.left {cs cs' : List Command} (h : Paired (cs ++ cs')) : Paired cs := by
  refine ⟨fun c hc => h.plain c (List.mem_append_left _ hc), ?_⟩
  rintro front data back rfl
  apply h.matched front data (back ++ cs')
  rw [List.append_assoc, List.cons_append]

/-- There are never more expects than sends so far. -/
theorem Paired.length_expected_le {cs : List Command} (h : Paired cs) :
    (expected cs).length ≤ (sent cs).length := by
  induction cs using List.reverseRecOn with
  | nil => exact Nat.le_refl 0
  | append_singleton cs c ih =>
      rcases h.plain c List.mem_concat_self with ⟨data, rfl⟩ | ⟨data, rfl⟩
      · have := ih h.left
        simp only [sent_append, expected_append, sent_send, expected_send, List.append_nil,
          List.length_append]
        omega
      · obtain ⟨hlt, -⟩ := List.getElem?_eq_some_iff.mp (h.matched cs data [] rfl)
        simp only [sent_append, expected_append, sent_expect, expected_expect, List.append_nil,
          List.length_append, List.length_singleton]
        exact hlt

/-- A send is not expected yet. -/
theorem unexpected_send (h : Paired front) (data : Bytes) :
    unexpected (front ++ [.send data]) = unexpected front ++ [data] := by
  rw [unexpected, unexpected, sent_append, expected_append, sent_send, expected_send, List.append_nil,
    List.drop_append_of_le_length h.length_expected_le]

/-- The text of an expect is the first one that is not expected yet. -/
theorem unexpected_expect (h : Paired (front ++ .expect data :: back)) :
    unexpected front = data :: unexpected (front ++ [.expect data]) := by
  obtain ⟨hlt, hdata⟩ := List.getElem?_eq_some_iff.mp (h.matched front data back rfl)
  rw [unexpected, unexpected, sent_append, expected_append, sent_expect, expected_expect,
    List.append_nil, List.length_append, List.length_singleton, List.drop_eq_getElem_cons hlt, hdata]

/-! ## One at a time -/

/-- The empty list of commands is paired. -/
theorem paired_nil : Paired [] := by
  refine ⟨fun c hc => absurd hc List.not_mem_nil, ?_⟩
  intro front data back h
  exact absurd h.symm (List.append_ne_nil_of_right_ne_nil _ (List.cons_ne_nil _ _))

/-- Where the expects are when there is one more command. -/
theorem concat_eq_iff {cs : List Command} {c : Command} :
    cs ++ [c] = front ++ .expect data :: back ↔
      (cs = front ∧ c = .expect data ∧ back = []) ∨
        ∃ back', cs = front ++ .expect data :: back' ∧ back = back' ++ [c] := by
  constructor
  · intro h
    induction back using List.reverseRecOn with
    | nil =>
        obtain ⟨hcs, hc⟩ := List.append_inj' h rfl
        exact .inl ⟨hcs, (List.cons.inj hc).1, rfl⟩
    | append_singleton back c' _ =>
        rw [← List.cons_append, ← List.append_assoc] at h
        obtain ⟨hcs, hc⟩ := List.append_inj' h rfl
        exact .inr ⟨back, hcs, by rw [(List.cons.inj hc).1]⟩
  · rintro (⟨rfl, rfl, rfl⟩ | ⟨back', rfl, rfl⟩)
    · rfl
    · rw [List.append_assoc, List.cons_append]

/-- A text more to be sent. -/
theorem Paired.send {cs : List Command} (h : Paired cs) (data : Bytes) :
    Paired (cs ++ [.send data]) := by
  refine ⟨?_, ?_⟩
  · intro c hc
    rcases List.mem_append.mp hc with hc | hc
    · exact h.plain c hc
    · exact .inl ⟨data, List.mem_singleton.mp hc⟩
  · intro front data' back hcs
    rcases concat_eq_iff.mp hcs with ⟨-, hc, -⟩ | ⟨back', hcs, -⟩
    · cases hc
    · exact h.matched front data' back' hcs

/-- The next text that is not yet expected. -/
theorem Paired.expect {cs : List Command} (h : Paired cs)
    (hdata : (unexpected cs).head? = some data) : Paired (cs ++ [.expect data]) := by
  refine ⟨?_, ?_⟩
  · intro c hc
    rcases List.mem_append.mp hc with hc | hc
    · exact h.plain c hc
    · exact .inr ⟨data, List.mem_singleton.mp hc⟩
  · intro front data' back hcs
    rcases concat_eq_iff.mp hcs with ⟨rfl, hc, -⟩ | ⟨back', hcs, -⟩
    · cases hc
      rw [← hdata, unexpected, List.head?_drop]
    · exact h.matched front data' back' hcs

/-- Every text is expected right after it has been sent. -/
def oneByOne (texts : List Bytes) : List Command :=
  texts.flatMap fun text => [.send text, .expect text]

/-- The last text is sent and expected at the end. -/
theorem oneByOne_concat (texts : List Bytes) (text : Bytes) :
    oneByOne (texts ++ [text]) = oneByOne texts ++ [.send text] ++ [.expect text] := by
  rw [oneByOne, List.flatMap_append, List.append_assoc]
  rfl

/-- All the texts are sent. -/
theorem sent_oneByOne (texts : List Bytes) : sent (oneByOne texts) = texts := by
  induction texts using List.reverseRecOn with
  | nil => rfl
  | append_singleton texts text ih =>
      rw [oneByOne_concat, sent_append, sent_append, sent_send, sent_expect, ih, List.append_nil]

/-- All of them are expected. -/
theorem expected_oneByOne (texts : List Bytes) : expected (oneByOne texts) = texts := by
  induction texts using List.reverseRecOn with
  | nil => rfl
  | append_singleton texts text ih =>
      rw [oneByOne_concat, expected_append, expected_append, expected_send, expected_expect, ih,
        List.append_nil]

/-- None is left that is not. -/
theorem unexpected_oneByOne (texts : List Bytes) : unexpected (oneByOne texts) = [] := by
  rw [unexpected, sent_oneByOne, expected_oneByOne, List.drop_length]

/-- Texts sent one by one are paired. -/
theorem paired_oneByOne (texts : List Bytes) : Paired (oneByOne texts) := by
  induction texts using List.reverseRecOn with
  | nil => exact paired_nil
  | append_singleton texts text ih =>
      rw [oneByOne_concat]
      apply (ih.send text).expect
      rw [unexpected_send ih, unexpected_oneByOne]
      rfl

/-- Nothing is mistaken where nothing is expected. -/
theorem unmistakable_nil : Unmistakable [] := by
  refine ⟨?_, ?_⟩
  · intro front data data' back h
    exact List.append_ne_nil_of_right_ne_nil _ (List.cons_ne_nil _ _) h.symm
  · intro front data back h
    exact absurd h.symm (List.append_ne_nil_of_right_ne_nil _ (List.cons_ne_nil _ _))

/-- A send and the expect of its text, if nothing else is to be expected. -/
theorem Unmistakable.exchange {cs : List Command} (h : Unmistakable cs) (hpaired : Paired cs)
    (hnone : unexpected cs = []) (text : Bytes) :
    Unmistakable (cs ++ [.send text] ++ [.expect text]) := by
  -- every expect but the last one is an expect of `cs`
  have hcases : ∀ {front : List Command} {data : Bytes} {back : List Command},
      cs ++ [Command.send text] = front ++ Command.expect data :: back →
        ∃ back', cs = front ++ Command.expect data :: back' := by
    intro front data back hcs
    rcases concat_eq_iff.mp hcs with ⟨-, hc, -⟩ | ⟨back', hcs, -⟩
    · cases hc
    · exact ⟨back', hcs⟩
  refine ⟨?_, ?_⟩
  · intro front data data' back hcs
    have hsecond : cs ++ [Command.send text] ++ [Command.expect text]
        = (front ++ [Command.expect data]) ++ Command.expect data' :: back := by
      rw [hcs, List.append_assoc, List.singleton_append]
    rcases concat_eq_iff.mp hsecond with ⟨hfront, -, -⟩ | ⟨back', hfront, -⟩
    · cases (List.cons.inj (List.append_inj' hfront rfl).2).1
    · obtain ⟨back'', hfront⟩ := hcases hfront
      rw [List.append_assoc, List.singleton_append] at hfront
      exact h.apart _ _ _ _ hfront
  · intro front data back hcs
    rcases concat_eq_iff.mp hcs with ⟨rfl, hc, -⟩ | ⟨back', hfront, -⟩
    · cases hc
      intro other hother
      rw [unexpected_send hpaired, hnone, List.nil_append, List.mem_singleton] at hother
      rw [hother]
    · obtain ⟨back'', hfront⟩ := hcases hfront
      exact h.contained front data back'' hfront

/-- Nor where texts are sent one by one. -/
theorem unmistakable_oneByOne (texts : List Bytes) : Unmistakable (oneByOne texts) := by
  induction texts using List.reverseRecOn with
  | nil => exact unmistakable_nil
  | append_singleton texts text ih =>
      rw [oneByOne_concat]
      exact ih.exchange (paired_oneByOne texts) (unexpected_oneByOne texts) text

/-- Nor in the front of commands that are unmistakable. -/
theorem Unmistakable.left {cs cs' : List Command} (h : Unmistakable (cs ++ cs')) :
    Unmistakable cs := by
  refine ⟨?_, ?_⟩
  · rintro front data data' back rfl
    apply h.apart front data data' (back ++ cs')
    rw [List.append_assoc, List.cons_append, List.cons_append]
  · rintro front data back rfl
    apply h.contained front data (back ++ cs')
    rw [List.append_assoc, List.cons_append]

/-- Where all replies are expected, a scenario is unmistakable only if no text is sent before the
reply to the one before has been expected. -/
theorem unmistakable_iff_oneByOne (hpaired : Paired body)
    (hall : (expected body).length = (sent body).length) :
    Unmistakable body ↔ ∃ texts, body = oneByOne texts := by
  constructor
  · intro hgood
    induction hn : body.length using Nat.strongRecOn generalizing body with
    | ind n ih =>
        -- the last command is an expect, and the one before it the send of its text
        rcases List.eq_nil_or_concat' body with rfl | ⟨cs, c, rfl⟩
        · exact ⟨[], rfl⟩
        · rcases hpaired.plain c List.mem_concat_self with ⟨data, rfl⟩ | ⟨data, rfl⟩
          · have hle := hpaired.left.length_expected_le
            simp only [sent_append, expected_append, sent_send, expected_send, List.length_append,
              List.length_singleton, List.length_nil] at hall
            omega
          · have hmatched := hpaired.matched cs data [] rfl
            rcases List.eq_nil_or_concat' cs with rfl | ⟨front, c, rfl⟩
            · cases hmatched
            · rcases hpaired.left.plain c List.mem_concat_self with ⟨text, rfl⟩ | ⟨text, rfl⟩
              · simp only [sent_append, expected_append, sent_send, expected_send, sent_expect,
                  expected_expect, List.length_append, List.length_singleton, List.length_nil,
                  Nat.add_zero, Nat.add_right_cancel_iff] at hall hn
                rw [sent_append, expected_append, expected_send, List.append_nil, hall, sent_send,
                  List.getElem?_concat_length] at hmatched
                cases hmatched
                obtain ⟨texts, rfl⟩ := ih front.length (by omega) hpaired.left.left hall
                  hgood.left.left rfl
                exact ⟨texts ++ [data], (oneByOne_concat texts data).symm⟩
              · exact absurd (List.append_assoc _ _ _) (hgood.apart front text data [])
  · rintro ⟨texts, rfl⟩
    exact unmistakable_oneByOne texts

end NetworkLib.ScenarioEngine
