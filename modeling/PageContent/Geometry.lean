/-! Points, rectangles and affine maps over doubles. Sums and products are taken in
the order written, so results are exact to the last bit. -/
namespace PageContent

structure Point where
  x : Float
  y : Float
  deriving DecidableEq, Repr

structure Rect where
  x0 : Float
  y0 : Float
  x1 : Float
  y1 : Float
  deriving DecidableEq, Repr

structure Matrix where
  a : Float
  b : Float
  c : Float
  d : Float
  e : Float
  f : Float
  deriving DecidableEq, Repr

def lesser (x y : Float) : Float :=
  if x.isNaN then y else if y.isNaN then x else if x ≤ y then x else y

def greater (x y : Float) : Float :=
  if x.isNaN then y else if y.isNaN then x else if y ≤ x then x else y

namespace Matrix

def identity : Matrix := ⟨1, 0, 0, 1, 0, 0⟩

def followedBy (m n : Matrix) : Matrix :=
  ⟨n.a * m.a + n.c * m.b, n.b * m.a + n.d * m.b,
   n.a * m.c + n.c * m.d, n.b * m.c + n.d * m.d,
   n.a * m.e + n.c * m.f + n.e, n.b * m.e + n.d * m.f + n.f⟩

def translate (m : Matrix) (p : Point) : Matrix :=
  { m with e := p.x * m.a + p.y * m.c + m.e, f := p.x * m.b + p.y * m.d + m.f }

def apply (m : Matrix) (p : Point) : Point :=
  ⟨m.a * p.x + m.c * p.y + m.e, m.b * p.x + m.d * p.y + m.f⟩

end Matrix

def greatestFinite : Float := Float.ofBits 0x7fefffffffffffff

namespace Rect

def letter : Rect := ⟨0, 0, 612, 792⟩

def corners (r : Rect) : List Point :=
  [⟨r.x0, r.y0⟩, ⟨r.x1, r.y0⟩, ⟨r.x1, r.y1⟩, ⟨r.x0, r.y1⟩]

def cover (r : Rect) (p : Point) : Rect :=
  ⟨lesser r.x0 p.x, lesser r.y0 p.y, greater r.x1 p.x, greater r.y1 p.y⟩

def image (m : Matrix) (r : Rect) : Rect :=
  (r.corners.map m.apply).foldl cover
    ⟨greatestFinite, greatestFinite, -greatestFinite, -greatestFinite⟩

def union (r s : Rect) : Rect :=
  ⟨lesser r.x0 s.x0, lesser r.y0 s.y0, greater r.x1 s.x1, greater r.y1 s.y1⟩

def normalize (r : Rect) : Rect :=
  ⟨lesser r.x0 r.x1, lesser r.y0 r.y1, greater r.x0 r.x1, greater r.y0 r.y1⟩

def contains (r : Rect) (p : Point) : Bool :=
  let r := r.normalize
  r.x0 ≤ p.x && p.x ≤ r.x1 && r.y0 ≤ p.y && p.y ≤ r.y1

def center (r : Rect) : Point := ⟨(r.x0 + r.x1) / 2, (r.y0 + r.y1) / 2⟩

end Rect

end PageContent
