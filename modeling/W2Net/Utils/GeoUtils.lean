import W2Net.Lib.Python

/-!
# `W2Net.Utils.GeoUtils`: rasters, coordinates and geodesics

The model of `utils/geo_utils.py`, with the part of rasterio and pyproj that it
and `utils/lbr.py` use. `Affine` is the transform of a raster. The conversion of
a coordinate reference system to EPSG:4326 and the geodesic of the ellipsoid
are not part of the repository, so `PyProj` holds them as functions.
-/

set_option autoImplicit false

namespace W2Net

/-- The six coefficients of a raster's affine transform. -/
structure Affine (K : Type) where
  a : K
  b : K
  c : K
  d : K
  e : K
  f : K

/-- `transform * (col, row)`. -/
def Affine.mul {K : Type} [Field K] (t : Affine K) (p : K × K) : K × K :=
  (t.a * p.1 + t.b * p.2 + t.c, t.d * p.1 + t.e * p.2 + t.f)

/-- What `rasterio.open` gives: a transform, and a coordinate reference system
when the file is georeferenced. `C` is the type of the reference systems. -/
structure Raster (K C : Type) where
  transform : Affine K
  crs : Option C

/-- `ds.xy(row, col)` with rasterio's default offset: the pixel centre. -/
def Raster.xy {K C : Type} [Field K] (ds : Raster K C) (row col : K) : K × K :=
  ds.transform.mul (col + 1 / 2, row + 1 / 2)

/-- The functions of pyproj: `toWgs84 crs` is
`Transformer.from_crs(crs, "EPSG:4326", always_xy=True).transform`, `isProjected`
is `crs.is_projected`, and `geodInv` is the distance that
`Geod(ellps="WGS84").inv` returns for two longitude/latitude pairs. -/
structure PyProj (K C : Type) where
  toWgs84 : C → K × K → K × K
  isProjected : C → Bool
  geodInv : K × K → K × K → K

/-- `pixel_segment_length_m`: both pixels to the raster's coordinates, then to
longitude/latitude, then the geodesic. A raster without a reference system
raises `ValueError`. -/
def pixelSegmentLengthM {K C : Type} [Field K] (pp : PyProj K C) (ds : Raster K C)
    (col1 row1 col2 row2 : K) : PyM K :=
  match ds.crs with
  | none => .error .valueError
  | some crs =>
      let p1 := ds.transform.mul (col1, row1)
      let p2 := ds.transform.mul (col2, row2)
      .ok (pp.geodInv (pp.toWgs84 crs p1) (pp.toWgs84 crs p2))

end W2Net
