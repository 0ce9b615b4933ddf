import FederatedQuery.Foreign.World

/-!
Worlds that keep a journal. The systems outside write down what they are asked to do and do it as they did
without the journal.
-/
namespace FederatedQuery.Foreign

/-- The systems outside, with a journal of what they were asked to do. -/
structure Noted (E σ : Type) where
  outside : σ
  journal : List E

namespace Noted

variable {E σ α : Type}

/-- Does what an action does, and writes down what there is to say of its result. -/
def act (notes : Except Error α → List E) (f : σ → Except Error α × σ) (n : Noted E σ) : Except Error α × Noted E σ :=
  let r := f n.outside
  (r.1, ⟨r.2, n.journal ++ notes r.1⟩)

end Noted

namespace World

variable {E σ α : Type}

def journal (w : World (Noted E σ)) : List E := w.outside.journal

def plain (w : World (Noted E σ)) : World σ := ⟨w.store, w.sessions, w.binds, w.outside.outside⟩

def noted (E : Type) (w : World σ) : World (Noted E σ) := ⟨w.store, w.sessions, w.binds, ⟨w.outside, []⟩⟩

/-- The world with more in its journal. -/
def note (w : World (Noted E σ)) (events : List E) : World (Noted E σ) :=
  { w with outside := ⟨w.outside.outside, w.journal ++ events⟩ }

/-- A world that came of this one without its journal, with the journal. -/
def onward (w : World (Noted E σ)) (v : World σ) : World (Noted E σ) :=
  ⟨v.store, v.sessions, v.binds, ⟨v.outside, w.journal⟩⟩

/-- What an action leaves, without the journal. -/
def plainly (o : Except Error α × World (Noted E σ)) : Except Error α × World σ := (o.1, o.2.plain)

@[simp]
theorem plain_note (w : World (Noted E σ)) (events : List E) : (w.note events).plain = w.plain := rfl

@[simp]
theorem plain_onward (w : World (Noted E σ)) (v : World σ) : (w.onward v).plain = v := rfl

variable (w : World (Noted E σ)) (notes : Except Error α → List E) (f : σ → Except Error α × σ)

theorem journal_act_noted : (w.act (Noted.act notes f)).2.journal = w.journal ++ notes (w.act (Noted.act notes f)).1 :=
  rfl

theorem sessions_act (g : σ → Except Error α × σ) (v : World σ) : (v.act g).2.sessions = v.sessions := rfl

end World

end FederatedQuery.Foreign
