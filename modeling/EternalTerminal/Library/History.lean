import Mathlib.Data.List.Basic

/-!
# Requests and answers in a history

Some events of a history are requests and some are answers. That no request is made while another is
open is a property of the history alone: it is kept by events that are no requests, and a request may
be added when all before it are answered.
-/

namespace History

variable {ε : Type*} {request answer : ε → Prop} {events out : List ε}

/-- Every request has an answer behind it. -/
def Answered (request answer : ε → Prop) (events : List ε) : Prop :=
  ∀ earlier event later, events = earlier ++ event :: later → request event →
    ∃ reply ∈ later, answer reply

/-- Between two requests there is an answer. -/
def Separated (request answer : ε → Prop) (events : List ε) : Prop :=
  ∀ earlier first mid second later, events = earlier ++ first :: mid ++ second :: later →
    request first → request second → ∃ reply ∈ mid, answer reply

theorem Answered.nil : Answered request answer ([] : List ε) := by
  intro earlier event later hsplit
  simp at hsplit

theorem Separated.nil : Separated request answer ([] : List ε) := by
  intro earlier first mid second later hsplit
  simp at hsplit

theorem split_before {earlier later : List ε} {event : ε}
    (h : events ++ out = earlier ++ event :: later) (hevent : request event)
    (hout : ∀ e ∈ out, ¬ request e) :
    ∃ rest, events = earlier ++ event :: rest ∧ later = rest ++ out := by
  rcases List.append_eq_append_iff.mp h with ⟨skipped, hearlier, hout'⟩ | ⟨tail, hevents, htail⟩
  · exact absurd hevent (hout event (hout' ▸ List.mem_append_right skipped List.mem_cons_self))
  · cases tail with
    | nil =>
        rw [List.nil_append] at htail
        exact absurd hevent (hout event (htail ▸ List.mem_cons_self))
    | cons head rest =>
        obtain ⟨rfl, hlater⟩ := List.cons.inj htail
        exact ⟨rest, hevents, hlater⟩

theorem Answered.append (h : Answered request answer events) (hout : ∀ e ∈ out, ¬ request e) :
    Answered request answer (events ++ out) := by
  intro earlier event later hsplit hevent
  obtain ⟨rest, hevents, rfl⟩ := split_before hsplit hevent hout
  obtain ⟨reply, hmem, hreply⟩ := h earlier event rest hevents hevent
  exact ⟨reply, List.mem_append_left out hmem, hreply⟩

/-- An answer answers all requests before it. -/
theorem Answered.of_answer {reply : ε} (hreply : answer reply) (hrequest : ¬ request reply)
    (events : List ε) : Answered request answer (events ++ [reply]) := by
  intro earlier event later hsplit hevent
  obtain ⟨rest, -, rfl⟩ := split_before hsplit hevent (by simpa using hrequest)
  exact ⟨reply, List.mem_append_right rest List.mem_cons_self, hreply⟩

theorem Separated.append (h : Separated request answer events) (hout : ∀ e ∈ out, ¬ request e) :
    Separated request answer (events ++ out) := by
  intro earlier first mid second later hsplit hfirst hsecond
  obtain ⟨rest, hevents, -⟩ := split_before hsplit hsecond hout
  exact h earlier first mid second rest hevents hfirst hsecond

theorem Separated.concat (h : Separated request answer events)
    (hanswered : Answered request answer events) (event : ε) :
    Separated request answer (events ++ [event]) := by
  intro earlier first mid second later hsplit hfirst hsecond
  rcases List.eq_nil_or_concat later with rfl | ⟨rest, last, rfl⟩
  · obtain ⟨hevents, -⟩ := List.append_inj' hsplit rfl
    exact hanswered earlier first mid hevents hfirst
  · rw [List.concat_eq_append, ← List.cons_append, ← List.append_assoc] at hsplit
    obtain ⟨hevents, -⟩ := List.append_inj' hsplit rfl
    exact h earlier first mid second rest hevents hfirst hsecond

end History
